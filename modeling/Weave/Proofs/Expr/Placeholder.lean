import Weave.Expr.Placeholder
import Weave.Proofs.Expr.All

namespace Weave

/-!
# Where placeholders stand

The search for placeholders visits every part of an expression that is not inside a
lambda, so it finds a placeholder exactly when there is one.
-/

variable {holds : Expr → Prop} {result expr : Expr}

namespace Expr

/-- The expression is a placeholder. -/
def IsPlaceholder : Expr → Prop
  | .placeholder _ _ => True
  | _ => False

/-- The expression is a lambda. -/
def IsLambda : Expr → Prop
  | .lambda _ _ => True
  | _ => False

theorem exists_isInCase_none :
    (∃ expr, IsInCase ⟨none, result⟩ expr ∧ holds expr) ↔ holds result := by
  constructor
  · rintro ⟨_, isIn, has⟩
    cases isIn with
    | matcher isPattern | guard isPattern => cases isPattern
    | result => exact has
  · exact fun has => ⟨result, .result, has⟩

theorem exists_isInCase_some {binding : Option String} {matcher guard : Option Expr} :
    (∃ expr, IsInCase ⟨some ⟨binding, matcher, guard⟩, result⟩ expr ∧ holds expr) ↔
      (∃ expr, matcher = some expr ∧ holds expr) ∨
        (∃ expr, guard = some expr ∧ holds expr) ∨ holds result := by
  constructor
  · rintro ⟨expr, isIn, has⟩
    cases isIn with
    | matcher isPattern isMatcher =>
      cases isPattern
      exact .inl ⟨expr, isMatcher, has⟩
    | guard isPattern isGuard =>
      cases isPattern
      exact .inr (.inl ⟨expr, isGuard, has⟩)
    | result => exact .inr (.inr has)
  · rintro (⟨expr, isMatcher, has⟩ | ⟨expr, isGuard, has⟩ | has)
    · exact ⟨expr, .matcher rfl isMatcher, has⟩
    · exact ⟨expr, .guard rfl isGuard, has⟩
    · exact ⟨result, .result, has⟩

variable {wanted : Nat → Bool}

theorem someHasPlaceholder_iff : someHasPlaceholder wanted exprs ↔
      ∃ expr ∈ exprs, expr.hasPlaceholder wanted := by
  induction exprs with
  | nil => simp [someHasPlaceholder]
  | cons _ _ ih => simp [someHasPlaceholder, ih]

theorem fieldsHavePlaceholder_iff : fieldsHavePlaceholder wanted fields ↔
      ∃ field ∈ fields,
        field.1.hasPlaceholder wanted ∨ field.2.hasPlaceholder wanted := by
  induction fields with
  | nil => simp [fieldsHavePlaceholder]
  | cons _ _ ih => simp [fieldsHavePlaceholder, ih]

theorem optionHasPlaceholder_iff : optionHasPlaceholder wanted option ↔
      ∃ expr, option = some expr ∧ expr.hasPlaceholder wanted := by
  cases option <;> simp [optionHasPlaceholder]

theorem casesHavePlaceholder_cons_iff {case : MatchCase Expr} {rest : List (MatchCase Expr)} :
    casesHavePlaceholder wanted (case :: rest) ↔
      (∃ expr, IsInCase case expr ∧ expr.hasPlaceholder wanted) ∨
        casesHavePlaceholder wanted rest := by
  obtain ⟨pattern, _⟩ := case
  cases pattern with
  | none => rw [casesHavePlaceholder, Bool.or_eq_true, exists_isInCase_none]
  | some =>
    simp only [casesHavePlaceholder, Bool.or_eq_true, optionHasPlaceholder_iff,
      exists_isInCase_some, or_assoc]

theorem casesHavePlaceholder_iff : casesHavePlaceholder wanted cases ↔
      ∃ case ∈ cases, ∃ expr, IsInCase case expr ∧ expr.hasPlaceholder wanted := by
  induction cases with
  | nil => simp [casesHavePlaceholder]
  | cons _ _ ih =>
    simp only [casesHavePlaceholder_cons_iff, ih, List.mem_cons, exists_eq_or_imp]

/-- A placeholder is found at the outermost node, or in a child of what is no lambda. -/
theorem hasPlaceholder_iff : expr.hasPlaceholder wanted ↔
      (∃ level pos, expr = .placeholder level pos ∧ wanted level) ∨
        ¬ expr.IsLambda ∧ ∃ child, IsChild child expr ∧ child.hasPlaceholder wanted := by
  rw [exists_isChild_iff]
  cases expr <;>
    simp [hasPlaceholder, SomeChild, IsLambda, someHasPlaceholder_iff, fieldsHavePlaceholder_iff,
      optionHasPlaceholder_iff, casesHavePlaceholder_iff]

/-- What is not found is not there: outside lambdas every part is visited. -/
theorem all_not_wanted (noLambda : expr.All fun part => ¬ part.IsLambda)
    (notFound : ¬ expr.hasPlaceholder wanted) :
    expr.All fun part =>
      ∀ level pos, part = .placeholder level pos → wanted level = false := by
  refine
    @All.byChildren (fun part => ¬ part.IsLambda) expr
      (fun part => ¬ part.hasPlaceholder wanted → part.All _) ?_ noLambda notFound
  intro expr notLambda inner notFound
  rw [hasPlaceholder_iff, not_or] at notFound
  refine .of_children ?_ fun child isChild => ?_
  · rintro level pos rfl
    exact Bool.eq_false_iff.mpr fun isWanted => notFound.1 ⟨level, pos, rfl, isWanted⟩
  · exact inner child isChild fun has => notFound.2 ⟨notLambda, child, isChild, has⟩

theorem not_hasPlaceholder (noPlaceholder : expr.All fun part => ¬ part.IsPlaceholder) :
    ¬ expr.hasPlaceholder wanted := by
  refine @All.byChildren _ expr (fun part => ¬ part.hasPlaceholder wanted) ?_ noPlaceholder
  intro expr notHere inner has
  rcases hasPlaceholder_iff.mp has with ⟨level, pos, rfl, _⟩ | ⟨_, child, isChild, inChild⟩
  · exact notHere trivial
  · exact inner child isChild inChild

end Expr

end Weave
