import Weave.Text.Search

namespace Weave.Text

open List

/-!
# Cutting texts

The needle does not occur before the place a text is cut at.
-/

variable {needle text rest before : List Char}

attribute [local simp] after? cutAt?

theorem after?_append (starts : after? needle text = some rest) (more : List Char) :
    after? needle (text ++ more) = some (rest ++ more) := by
  induction needle generalizing text with
  | nil =>
    obtain rfl := Option.some.inj starts
    rfl
  | cons expected _ ih =>
    cases text with
    | nil => cases starts
    | cons char =>
      by_cases same : expected = char
      · rw [after?, if_pos same] at starts
        rw [cons_append, after?, if_pos same]
        exact ih starts
      · rw [after?, if_neg same] at starts
        cases starts

theorem cutAt?_eq_none_of_not_mem (notMember : first ∉ text) (needle : List Char) :
    cutAt? (first :: needle) text = none := by
  induction text with
  | nil => rfl
  | cons _ _ ih =>
    rw [mem_cons, not_or] at notMember
    obtain ⟨differs, notInText⟩ := notMember
    rw [cutAt?, after?, if_neg differs, ih notInText]
    rfl

theorem eq_append_of_after? (starts : after? needle text = some rest) : text = needle ++ rest := by
  induction needle generalizing text with
  | nil => exact Option.some.inj starts
  | cons _ _ ih =>
    cases text with
    | nil => cases starts
    | cons =>
      rw [after?] at starts
      split at starts
      · rename_i same
        rw [same, ih starts, cons_append]
      · cases starts

/-- A cut takes the needle away and nothing else. -/
theorem eq_append_of_cutAt? (cut : cutAt? needle text = some (before, rest)) :
    text = before ++ needle ++ rest := by
  induction text generalizing before with
  | nil =>
    simp only [cutAt?, List.isEmpty_iff] at cut
    split at cut
    · obtain ⟨rfl, rfl⟩ := Prod.mk.inj (Option.some.inj cut)
      simp [*]
    · cases cut
  | cons _ _ ih =>
    rw [cutAt?] at cut
    split at cut
    · rename_i remainder starts
      obtain ⟨rfl, rfl⟩ := Prod.mk.inj (Option.some.inj cut)
      exact eq_append_of_after? starts
    · simp only [Option.map_eq_some_iff, Prod.exists] at cut
      obtain ⟨front, remainder, cutRest, rfl, rfl⟩ := cut
      rw [ih cutRest]
      rfl

theorem after?_append_self (needle rest : List Char) :
    after? needle (needle ++ rest) = some rest := by
  induction needle with
  | nil => rfl
  | cons _ _ ih => simp [after?, ih]

theorem cutAt?_eq_none_iff (notEmpty : needle ≠ []) (text : List Char) :
    cutAt? needle text = none ↔ ¬ needle <:+: text := by
  constructor
  · rintro noCut ⟨before, rest, rfl⟩
    induction before with
    | nil =>
      obtain ⟨first, others, rfl⟩ := exists_cons_of_ne_nil notEmpty
      rw [nil_append, cons_append, cutAt?, ← cons_append, after?_append_self] at noCut
      cases noCut
    | cons _ _ ih =>
      rw [cons_append, cons_append, cutAt?] at noCut
      split at noCut
      · cases noCut
      · exact ih (Option.map_eq_none_iff.mp noCut)
  · intro notInside
    cases cut : cutAt? needle text with
    | none => rfl
    | some found => exact absurd ⟨found.1, found.2, (eq_append_of_cutAt? cut).symm⟩ notInside

/-- What stands before a cut is the front of the text, and the needle is not in it. -/
theorem cutAt?_eq_some (notEmpty : needle ≠ []) (cut : cutAt? needle text = some (before, rest)) :
    (∃ behind, text = before ++ behind) ∧ cutAt? needle before = none := by
  have onNothing : cutAt? needle [] = none := by simp [cutAt?, notEmpty]
  induction text generalizing before with
  | nil =>
    rw [onNothing] at cut
    cases cut
  | cons char text ih =>
    rw [cutAt?] at cut
    cases starts : after? needle (char :: text) with
    | some =>
      simp only [starts] at cut
      obtain ⟨rfl, rfl⟩ := cut
      exact ⟨⟨char :: text, rfl⟩, onNothing⟩
    | none =>
      simp only [starts, Option.map_eq_some_iff, Prod.exists] at cut
      obtain ⟨front, remainder, cutRest, rfl, rfl⟩ := cut
      obtain ⟨⟨behind, rfl⟩, notInFront⟩ := ih cutRest
      have notHere : after? needle (char :: front) = none := by
        cases startsFront : after? needle (char :: front) with
        | none => rfl
        | some =>
          have startsWhole := after?_append startsFront behind
          rw [cons_append, starts] at startsWhole
          cases startsWhole
      rw [cutAt?, notHere]
      simp [notInFront]

end Weave.Text
