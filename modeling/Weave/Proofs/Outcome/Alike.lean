import Weave.Core.Sequences
import Weave.Proofs.Outcome

namespace Weave

/-!
# Outcomes that cannot be told apart

Two outcomes are alike if they log the same lines and leave the same value or faults of
one kind.  Faults of one kind differ at most in the expression that a message quotes.
-/

/-- The faults differ at most in the expression that is said not to be callable. -/
inductive Fault.Alike : Fault → Fault → Prop
  | same (fault : Fault) : Alike fault fault
  | notCallable (left right : String) :
      Alike (.mismatch (.notCallable left)) (.mismatch (.notCallable right))

/-- The same value, or faults of one kind. -/
inductive ResultsAlike {α : Type} : Except Fault α → Except Fault α → Prop
  | value (found : α) : ResultsAlike (.ok found) (.ok found)
  | fault (alike : left.Alike right) : ResultsAlike (.error left) (.error right)

namespace Outcome

variable {α β : Type}

/-- The same lines, and the same value or faults of one kind. -/
structure Alike (left right : Outcome α) : Prop where
  logs : left.logs = right.logs
  results : ResultsAlike left.result right.result

namespace Alike

theorem refl (outcome : Outcome α) : Alike outcome outcome := by
  refine ⟨rfl, ?_⟩
  cases outcome.result with
  | ok found => exact .value found
  | error raised => exact .fault (.same raised)

theorem of_eq (same : left = right) : Alike left right := same ▸ refl left

theorem fault {left : Fault} (alike : left.Alike right) :
    Alike (Outcome.fault left : Outcome α) (Outcome.fault right) :=
  ⟨rfl, .fault alike⟩

/-- Going on alike from the value that alike outcomes leave. -/
theorem bind_of_result {left : Outcome α} (first : Alike left right)
    (second : ∀ found, left.result = .ok found → Alike (leftNext found) (rightNext found)) :
    Alike (left >>= leftNext) (right >>= rightNext) := by
  obtain ⟨leftLogs, leftResult⟩ := left
  obtain ⟨rightLogs, rightResult⟩ := right
  obtain ⟨rfl, results⟩ := first
  cases results with
  | value found =>
    obtain ⟨sameLogs, sameResults⟩ := second found rfl
    exact ⟨congrArg (leftLogs ++ ·) sameLogs, sameResults⟩
  | fault alike => exact ⟨rfl, .fault alike⟩

theorem bind (first : Alike left right)
    (second : ∀ found, Alike (leftNext found) (rightNext found)) :
    Alike (left >>= leftNext) (right >>= rightNext) :=
  first.bind_of_result fun found _ => second found

/-- Putting other faults in the place of alike ones. -/
theorem tryCatch_throw {left right : Outcome α} (alike : Alike left right) {instead : Fault → Fault}
    (keepsAlike : ∀ {left right : Fault}, left.Alike right → (instead left).Alike (instead right)) :
    Alike (tryCatch left fun fault => throw (instead fault))
      (tryCatch right fun fault => throw (instead fault)) := by
  obtain ⟨leftLogs, leftResult⟩ := left
  obtain ⟨rightLogs, rightResult⟩ := right
  obtain ⟨rfl, results⟩ := alike
  cases results with
  | value found => exact ⟨rfl, .value found⟩
  | fault faultsAlike => exact ⟨rfl, .fault (keepsAlike faultsAlike)⟩

/-- Two computations with the items of two lists, item by item. -/
theorem each (alike : List.Forall₂ (fun left right => Alike (leftCompute left) (rightCompute right))
        leftItems rightItems) :
    Alike (Outcome.each leftCompute leftItems) (Outcome.each rightCompute rightItems) := by
  induction alike with
  | nil => exact refl _
  | cons first _ ih => exact first.bind fun _ => ih.bind fun _ => refl _

theorem each_same (alike : ∀ item, Alike (leftCompute item) (rightCompute item)) (items : List α) :
    Alike (Outcome.each leftCompute items) (Outcome.each rightCompute items) :=
  each (List.forall₂_same.mpr fun item _ => alike item)

theorem keep (alike : ∀ item, Alike (leftHolds item) (rightHolds item)) (items : List α) :
    Alike (Outcome.keep leftHolds items) (Outcome.keep rightHolds items) := by
  induction items with
  | nil => exact refl _
  | cons item _ ih => exact (alike item).bind fun _ => ih.bind fun _ => refl _

theorem distinctFrom (alike : ∀ item, Alike (leftMark item) (rightMark item)) (seen : List Value)
    (items : List (Value × Nat)) :
    Alike (Core.distinctFrom leftMark seen items) (Core.distinctFrom rightMark seen items) := by
  induction items generalizing seen with
  | nil => exact refl _
  | cons item _ ih =>
    refine (alike item).bind fun found => (refl _).bind fun mark => ?_
    by_cases isSeen : seen.contains mark
    · simp only [isSeen]
      exact ih seen
    · simp only [isSeen]
      exact (ih _).bind fun _ => refl _

end Alike

end Outcome

end Weave
