import Weave.Expr.Placeholder

namespace Weave

/-!
# Expressions with their names further down

A context adds lines to the names that are looked up in it.  The same comes out if the names are
moved down instead, but for those that are looked up in a context of their own: what a lambda, an
argument with placeholders or a case with a binding holds is not moved.
-/

/-- The position some lines further down. -/
def Position.lowered (count : Nat) (position : Position) : Position :=
  ⟨position.line + count, position.column⟩

/-- Whether a case has a name for the matched value. -/
def MatchPattern.isBinding {ε : Type} (pattern : MatchPattern ε) : Bool :=
  match pattern.binding with
  | none => false
  | some name => name != ""

namespace Expr

mutual

/-- An expression with the names that are looked up where it is evaluated further down. -/
def lowered (count : Nat) : Expr → Expr
  | .object fields => .object (loweredFields count fields)
  | .list elements => .list (loweredAll count elements)
  | .text value => .text value
  | .template parts => .template (loweredAll count parts)
  | .number value => .number value
  | .boolean value => .boolean value
  | .null => .null
  | .name word position => .name word (position.lowered count)
  | .placeholder level position => .placeholder level position
  | .property base selector nullSafe => .property (lowered count base) selector nullSafe
  | .index base place => .index (lowered count base) (lowered count place)
  | .call function arguments =>
    .call (lowered count function) (loweredArguments count function 0 arguments)
  | .orElse left right => .orElse (lowered count left) (lowered count right)
  | .conditional condition whenTrue whenFalse =>
    .conditional (lowered count condition) (lowered count whenTrue) (lowered count whenFalse)
  | .lambda parameters body => .lambda parameters body
  | .matching subject cases => .matching (lowered count subject) (loweredCases count cases)
  | .coercion value target options =>
    .coercion (lowered count value) target (loweredOption count options)

/-- Expressions with their names further down. -/
def loweredAll (count : Nat) : List Expr → List Expr
  | [] => []
  | expr :: rest => lowered count expr :: loweredAll count rest

/-- The arguments of a call from a place on with their names further down. -/
def loweredArguments (count : Nat) (function : Expr) : Nat → List Expr → List Expr
  | _, [] => []
  | place, argument :: rest =>
    (if function.isImplicitFunction argument place then argument
      else lowered count argument) :: loweredArguments count function (place + 1) rest

/-- Fields with their names further down. -/
def loweredFields (count : Nat) : List (Expr × Expr) → List (Expr × Expr)
  | [] => []
  | (key, value) :: rest => (lowered count key, lowered count value) :: loweredFields count rest

/-- An optional expression with its names further down. -/
def loweredOption (count : Nat) : Option Expr → Option Expr
  | none => none
  | some expr => some (lowered count expr)

/-- Cases with their names further down. -/
def loweredCases (count : Nat) : List (MatchCase Expr) → List (MatchCase Expr)
  | [] => []
  | ⟨none, result⟩ :: rest => ⟨none, lowered count result⟩ :: loweredCases count rest
  | ⟨some ⟨binding, matcher, guard⟩, result⟩ :: rest =>
    (if (MatchPattern.mk binding matcher guard).isBinding then
      ⟨some ⟨binding, loweredOption count matcher, guard⟩, result⟩
    else
      ⟨some ⟨binding, loweredOption count matcher, loweredOption count guard⟩,
        lowered count result⟩) :: loweredCases count rest

end

variable (count : Nat)

theorem loweredAll_eq_map (exprs : List Expr) :
    loweredAll count exprs = exprs.map (lowered count) := by
  induction exprs with
  | nil => rfl
  | cons _ _ ih => rw [loweredAll, ih, List.map_cons]

variable (wanted : Nat → Bool)

mutual

theorem hasPlaceholder_lowered :
    ∀ expr : Expr, (lowered count expr).hasPlaceholder wanted = expr.hasPlaceholder wanted
  | .object fields => by
    simp only [lowered, hasPlaceholder, fieldsHavePlaceholder_lowered fields]
  | .list elements => by
    simp only [lowered, hasPlaceholder, someHasPlaceholder_lowered elements]
  | .text _ => rfl
  | .template parts => by
    simp only [lowered, hasPlaceholder, someHasPlaceholder_lowered parts]
  | .number _ => rfl
  | .boolean _ => rfl
  | .null => rfl
  | .name .. => rfl
  | .placeholder .. => rfl
  | .property base _ _ => by
    simp only [lowered, hasPlaceholder, hasPlaceholder_lowered base]
  | .index base place => by
    simp only [lowered, hasPlaceholder, hasPlaceholder_lowered base, hasPlaceholder_lowered place]
  | .call fn args => by
    simp only [lowered, hasPlaceholder, hasPlaceholder_lowered fn,
      someHasPlaceholder_loweredArguments fn 0 args]
  | .orElse left right => by
    simp only [lowered, hasPlaceholder, hasPlaceholder_lowered left, hasPlaceholder_lowered right]
  | .conditional condition whenTrue whenFalse => by
    simp only [lowered, hasPlaceholder, hasPlaceholder_lowered condition,
      hasPlaceholder_lowered whenTrue, hasPlaceholder_lowered whenFalse]
  | .lambda .. => rfl
  | .matching subject cases => by
    simp only [lowered, hasPlaceholder, hasPlaceholder_lowered subject,
      casesHavePlaceholder_lowered cases]
  | .coercion value _ options => by
    simp only [lowered, hasPlaceholder, hasPlaceholder_lowered value,
      optionHasPlaceholder_lowered options]

theorem someHasPlaceholder_lowered : ∀ exprs : List Expr,
      someHasPlaceholder wanted (loweredAll count exprs) = someHasPlaceholder wanted exprs
  | [] => rfl
  | expr :: rest => by
    simp only [loweredAll, someHasPlaceholder, hasPlaceholder_lowered expr,
      someHasPlaceholder_lowered rest]

theorem someHasPlaceholder_loweredArguments (fn : Expr) : ∀ (place : Nat) (args : List Expr),
      someHasPlaceholder wanted (loweredArguments count fn place args) =
        someHasPlaceholder wanted args
  | _, [] => rfl
  | place, arg :: rest => by
    rw [loweredArguments, someHasPlaceholder, someHasPlaceholder,
      someHasPlaceholder_loweredArguments fn (place + 1) rest]
    split
    · rfl
    · rw [hasPlaceholder_lowered arg]

theorem fieldsHavePlaceholder_lowered : ∀ fields : List (Expr × Expr),
      fieldsHavePlaceholder wanted (loweredFields count fields) =
        fieldsHavePlaceholder wanted fields
  | [] => rfl
  | (key, value) :: rest => by
    simp only [loweredFields, fieldsHavePlaceholder, hasPlaceholder_lowered key,
      hasPlaceholder_lowered value, fieldsHavePlaceholder_lowered rest]

theorem optionHasPlaceholder_lowered : ∀ option : Option Expr,
      optionHasPlaceholder wanted (loweredOption count option) = optionHasPlaceholder wanted option
  | none => rfl
  | some expr => hasPlaceholder_lowered expr

theorem casesHavePlaceholder_lowered : ∀ cases : List (MatchCase Expr),
      casesHavePlaceholder wanted (loweredCases count cases) = casesHavePlaceholder wanted cases
  | [] => rfl
  | ⟨none, result⟩ :: rest => by
    simp only [loweredCases, casesHavePlaceholder, hasPlaceholder_lowered result,
      casesHavePlaceholder_lowered rest]
  | ⟨some ⟨binding, matcher, guard⟩, result⟩ :: rest => by
    rw [loweredCases]
    split
    · simp only [casesHavePlaceholder, optionHasPlaceholder_lowered matcher,
        casesHavePlaceholder_lowered rest]
    · simp only [casesHavePlaceholder, optionHasPlaceholder_lowered matcher,
        optionHasPlaceholder_lowered guard, hasPlaceholder_lowered result,
        casesHavePlaceholder_lowered rest]

end

/-- Moving the names of a callee down changes nothing about which arguments stand for functions. -/
theorem isImplicitFunction_lowered_callee (fn arg : Expr) (place : Nat) :
    (fn.lowered count).isImplicitFunction arg place = fn.isImplicitFunction arg place := by
  cases fn with
  | name => cases arg <;> rfl
  | _ => cases arg <;> simp only [lowered, isImplicitFunction]

theorem isImplicitFunction_lowered_argument (fn arg : Expr) (place : Nat) :
    fn.isImplicitFunction (arg.lowered count) place = fn.isImplicitFunction arg place := by
  cases fn with
  | name =>
    have keeps := hasPlaceholder_lowered count (fun _ => true) arg
    cases arg with
    | lambda => rfl
    | _ =>
      simp only [lowered] at keeps
      simp only [lowered, isImplicitFunction, keeps]
  | _ => cases arg <;> simp only [lowered, isImplicitFunction]

end Expr

end Weave
