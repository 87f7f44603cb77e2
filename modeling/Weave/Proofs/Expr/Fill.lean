import Weave.Expr.Placeholder

namespace Weave

/-!
# Names in the place of placeholders

An expression with placeholders says the same as the expression with two names in their
places.  The placeholders of a lambda are its own and stay.
-/

namespace Expr

mutual

/-- An expression with a name for the item and one for its place where the placeholders were. -/
def fill (item place : String) : Expr → Expr
  | .placeholder level position => .name (if level = 1 then item else place) position
  | .object fields => .object (fillFields item place fields)
  | .list elements => .list (fillAll item place elements)
  | .template parts => .template (fillAll item place parts)
  | .property base selector nullSafe => .property (fill item place base) selector nullSafe
  | .index base inner => .index (fill item place base) (fill item place inner)
  | .call function arguments =>
    .call (fill item place function) (fillAll item place arguments)
  | .orElse left right => .orElse (fill item place left) (fill item place right)
  | .conditional condition whenTrue whenFalse =>
    .conditional (fill item place condition) (fill item place whenTrue)
      (fill item place whenFalse)
  | .matching subject cases => .matching (fill item place subject) (fillCases item place cases)
  | .coercion value target options =>
    .coercion (fill item place value) target (fillOption item place options)
  | .text value => .text value
  | .number value => .number value
  | .boolean value => .boolean value
  | .null => .null
  | .name word position => .name word position
  | .lambda parameters body => .lambda parameters body

/-- Expressions with names where the placeholders were. -/
def fillAll (item place : String) : List Expr → List Expr
  | [] => []
  | expr :: rest => fill item place expr :: fillAll item place rest

/-- Fields with names where the placeholders were. -/
def fillFields (item place : String) : List (Expr × Expr) → List (Expr × Expr)
  | [] => []
  | (key, value) :: rest =>
    (fill item place key, fill item place value) :: fillFields item place rest

/-- An optional expression with names where the placeholders were. -/
def fillOption (item place : String) : Option Expr → Option Expr
  | none => none
  | some expr => some (fill item place expr)

/-- Cases with names where the placeholders were. -/
def fillCases (item place : String) : List (MatchCase Expr) → List (MatchCase Expr)
  | [] => []
  | ⟨none, result⟩ :: rest => ⟨none, fill item place result⟩ :: fillCases item place rest
  | ⟨some ⟨binding, matcher, guard⟩, result⟩ :: rest =>
    ⟨some ⟨binding, fillOption item place matcher, fillOption item place guard⟩,
      fill item place result⟩ :: fillCases item place rest

end

variable (item place : String) (wanted : Nat → Bool)

theorem fillAll_eq_map (exprs : List Expr) :
    fillAll item place exprs = exprs.map (fill item place) := by
  induction exprs with
  | nil => rfl
  | cons _ _ ih => rw [fillAll, ih, List.map_cons]

mutual

theorem hasPlaceholder_fill : ∀ expr : Expr, (fill item place expr).hasPlaceholder wanted = false
  | .placeholder level pos => by
    simp only [fill, hasPlaceholder]
  | .object fields => by
    simp only [fill, hasPlaceholder, fieldsHavePlaceholder_fill fields]
  | .list elements => by
    simp only [fill, hasPlaceholder, someHasPlaceholder_fill elements]
  | .template parts => by
    simp only [fill, hasPlaceholder, someHasPlaceholder_fill parts]
  | .property base _ _ => by
    simp only [fill, hasPlaceholder, hasPlaceholder_fill base]
  | .index base inner => by
    simp only [fill, hasPlaceholder, hasPlaceholder_fill base, hasPlaceholder_fill inner,
      Bool.or_self]
  | .call fn args => by
    simp only [fill, hasPlaceholder, hasPlaceholder_fill fn,
      someHasPlaceholder_fill args, Bool.or_self]
  | .orElse left right => by
    simp only [fill, hasPlaceholder, hasPlaceholder_fill left, hasPlaceholder_fill right,
      Bool.or_self]
  | .conditional condition whenTrue whenFalse => by
    simp only [fill, hasPlaceholder, hasPlaceholder_fill condition,
      hasPlaceholder_fill whenTrue, hasPlaceholder_fill whenFalse, Bool.or_self]
  | .matching subject cases => by
    simp only [fill, hasPlaceholder, hasPlaceholder_fill subject,
      casesHavePlaceholder_fill cases, Bool.or_self]
  | .coercion value _ options => by
    simp only [fill, hasPlaceholder, hasPlaceholder_fill value,
      optionHasPlaceholder_fill options, Bool.or_self]
  | .text _ | .number _ | .boolean _ | .null | .name _ _ | .lambda _ _ => by
    simp only [fill, hasPlaceholder]

theorem someHasPlaceholder_fill :
    ∀ exprs : List Expr, someHasPlaceholder wanted (fillAll item place exprs) = false
  | [] => rfl
  | expr :: rest => by
    simp only [fillAll, someHasPlaceholder, hasPlaceholder_fill expr,
      someHasPlaceholder_fill rest, Bool.or_self]

theorem fieldsHavePlaceholder_fill : ∀ fields : List (Expr × Expr),
      fieldsHavePlaceholder wanted (fillFields item place fields) = false
  | [] => rfl
  | (key, value) :: rest => by
    simp only [fillFields, fieldsHavePlaceholder, hasPlaceholder_fill key,
      hasPlaceholder_fill value, fieldsHavePlaceholder_fill rest, Bool.or_self]

theorem optionHasPlaceholder_fill :
    ∀ option : Option Expr, optionHasPlaceholder wanted (fillOption item place option) = false
  | none => rfl
  | some expr => hasPlaceholder_fill expr

theorem casesHavePlaceholder_fill : ∀ cases : List (MatchCase Expr),
      casesHavePlaceholder wanted (fillCases item place cases) = false
  | [] => rfl
  | ⟨none, result⟩ :: rest => by
    simp only [fillCases, casesHavePlaceholder, hasPlaceholder_fill result,
      casesHavePlaceholder_fill rest, Bool.or_self]
  | ⟨some ⟨_, matcher, guard⟩, result⟩ :: rest => by
    simp only [fillCases, casesHavePlaceholder, hasPlaceholder_fill result,
      optionHasPlaceholder_fill matcher, optionHasPlaceholder_fill guard,
      casesHavePlaceholder_fill rest, Bool.or_self]

end

end Expr

end Weave
