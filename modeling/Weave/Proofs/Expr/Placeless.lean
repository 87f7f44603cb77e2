import Weave.Expr

namespace Weave

/-!
# Expressions without positions

Two readings of the same words differ in their positions only when the words stand at
different places.  Forgetting the positions makes such readings equal.
-/

namespace Expr

mutual

/-- An expression with every position forgotten. -/
def placeless : Expr → Expr
  | .object fields => .object (placelessFields fields)
  | .list elements => .list (placelessAll elements)
  | .text value => .text value
  | .template parts => .template (placelessAll parts)
  | .number value => .number value
  | .boolean value => .boolean value
  | .null => .null
  | .name word _ => .name word .nowhere
  | .placeholder level _ => .placeholder level .nowhere
  | .property base selector nullSafe => .property (placeless base) selector nullSafe
  | .index base place => .index (placeless base) (placeless place)
  | .call function arguments => .call (placeless function) (placelessAll arguments)
  | .orElse left right => .orElse (placeless left) (placeless right)
  | .conditional condition whenTrue whenFalse =>
    .conditional (placeless condition) (placeless whenTrue) (placeless whenFalse)
  | .lambda parameters body => .lambda (placelessParameters parameters) (placeless body)
  | .matching subject cases => .matching (placeless subject) (placelessCases cases)
  | .coercion value target options =>
    .coercion (placeless value) target (placelessOption options)

/-- Expressions with every position forgotten. -/
def placelessAll : List Expr → List Expr
  | [] => []
  | expr :: rest => placeless expr :: placelessAll rest

/-- Fields with every position forgotten. -/
def placelessFields : List (Expr × Expr) → List (Expr × Expr)
  | [] => []
  | (key, value) :: rest => (placeless key, placeless value) :: placelessFields rest

/-- An optional expression with every position forgotten. -/
def placelessOption : Option Expr → Option Expr
  | none => none
  | some expr => some (placeless expr)

/-- Parameters with every position forgotten. -/
def placelessParameters : List (Parameter Expr) → List (Parameter Expr)
  | [] => []
  | ⟨word, fallback, type?⟩ :: rest =>
    ⟨word, placelessOption fallback, type?⟩ :: placelessParameters rest

/-- Cases with every position forgotten. -/
def placelessCases : List (MatchCase Expr) → List (MatchCase Expr)
  | [] => []
  | ⟨none, result⟩ :: rest => ⟨none, placeless result⟩ :: placelessCases rest
  | ⟨some ⟨binding, matcher, guard⟩, result⟩ :: rest =>
    ⟨some ⟨binding, placelessOption matcher, placelessOption guard⟩, placeless result⟩ ::
      placelessCases rest

end

/-- A field with every position forgotten. -/
def placelessField (field : Expr × Expr) : Expr × Expr := (placeless field.1, placeless field.2)

/-- A parameter with every position forgotten. -/
def placelessParameter (parameter : Parameter Expr) : Parameter Expr :=
  ⟨parameter.name, placelessOption parameter.fallback, parameter.type?⟩

/-- A pattern with every position forgotten. -/
def placelessPattern (pattern : MatchPattern Expr) : MatchPattern Expr :=
  ⟨pattern.binding, placelessOption pattern.matcher, placelessOption pattern.guard⟩

/-- A case with every position forgotten. -/
def placelessCase (alternative : MatchCase Expr) : MatchCase Expr :=
  ⟨alternative.pattern.map placelessPattern, placeless alternative.result⟩

@[simp] theorem placelessAll_eq_map (exprs : List Expr) :
    placelessAll exprs = exprs.map placeless := by
  induction exprs with
  | nil => rfl
  | cons _ _ ih => simp [placelessAll, ih]

@[simp] theorem placelessFields_eq_map (fields : List (Expr × Expr)) :
    placelessFields fields = fields.map placelessField := by
  induction fields with
  | nil => rfl
  | cons _ _ ih => simp [placelessFields, placelessField, ih]

@[simp] theorem placelessParameters_eq_map (params : List (Parameter Expr)) :
    placelessParameters params = params.map placelessParameter := by
  induction params with
  | nil => rfl
  | cons _ _ ih => simp [placelessParameters, placelessParameter, ih]

@[simp] theorem placelessCases_eq_map (cases : List (MatchCase Expr)) :
    placelessCases cases = cases.map placelessCase := by
  induction cases with
  | nil => rfl
  | cons alt _ ih =>
    obtain ⟨pattern, _⟩ := alt
    cases pattern <;>
      simp [placelessCases, placelessCase, placelessPattern, ih]

/-! ## What an expression without positions was made of -/

variable {expr : Expr}

theorem eq_text_of_placeless (viewed : expr.placeless = .text value) : expr = .text value := by
  cases expr <;> simp_all [placeless]

theorem eq_null_of_placeless (viewed : expr.placeless = .null) : expr = .null := by
  cases expr <;> simp_all [placeless]

theorem eq_name_of_placeless (viewed : expr.placeless = .name word .nowhere) :
    ∃ pos, expr = .name word pos := by
  cases expr <;> simp_all [placeless]

theorem eq_list_of_placeless (viewed : expr.placeless = .list elements) :
    ∃ found, expr = .list found ∧ found.map placeless = elements := by
  cases expr <;> simp_all [placeless]

theorem eq_object_of_placeless (viewed : expr.placeless = .object fields) :
    ∃ found, expr = .object found ∧ found.map placelessField = fields := by
  cases expr <;> simp_all [placeless]

end Expr

end Weave
