import Mathlib.Data.List.Forall2
import Weave.Outcome

namespace Weave

/-!
# Results of outcomes

Outcomes are put together like any computations that log and may fail.  When one that is
put together from others leaves a value, its parts leave the values it was made from.
-/

namespace Outcome

variable {α β : Type}

theorem andThen_value (outcome : Outcome α) : andThen outcome value = outcome := by
  obtain ⟨logs, result⟩ := outcome
  cases result <;> simp [andThen, value]

/-- Lines are logged in order, however the parts are grouped. -/
theorem andThen_assoc (outcome : Outcome α) (next : α → Outcome β) (last : β → Outcome γ) :
    andThen (andThen outcome next) last =
      andThen outcome fun found => andThen (next found) last := by
  obtain ⟨logs, result⟩ := outcome
  cases result with
  | error => rfl
  | ok found =>
    simp only [andThen]
    cases (next found).result <;> simp

instance : LawfulMonad Outcome :=
  .mk' Outcome andThen_value (fun _ _ => rfl) andThen_assoc

@[simp]
theorem result_pure (found : α) : (pure found : Outcome α).result = .ok found := rfl

@[simp]
theorem result_throw (raised : Fault) : (throw raised : Outcome α).result = .error raised := rfl

@[simp]
theorem result_lift (result : Except Fault α) : (liftM result : Outcome α).result = result := rfl

theorem each_cons (compute : α → Outcome β) (item : α) (rest : List α) :
    each compute (item :: rest) =
      (do
        let first ← compute item
        let others ← each compute rest
        return first :: others) :=
  rfl

/-- Behind a part that leaves a value, a sequence leaves what its second part does. -/
theorem result_bind_of_ok {outcome : Outcome α} (isLeft : outcome.result = .ok found)
    (next : α → Outcome β) : (outcome >>= next).result = (next found).result := by
  change (outcome.andThen next).result = _
  unfold andThen
  rw [isLeft]

/-- Behind a part that fails nothing happens. -/
theorem result_bind_of_error {outcome : Outcome α} (fails : outcome.result = .error raised)
    (next : α → Outcome β) : (outcome >>= next).result = .error raised := by
  change (outcome.andThen next).result = _
  unfold andThen
  rw [fails]

/-- What leaves a value leaves it, whatever is done about faults. -/
theorem result_tryCatch_of_ok {outcome : Outcome α} (isLeft : outcome.result = .ok found)
    (handle : Fault → Outcome α) : (tryCatch outcome handle).result = .ok found := by
  obtain ⟨logs, result⟩ := outcome
  obtain rfl : result = .ok found := isLeft
  rfl

/-- A sequence leaves a value if its first part does and the second one goes on with it. -/
theorem result_bind_eq_ok {outcome : Outcome α} : (outcome >>= next).result = .ok found ↔
      ∃ value, outcome.result = .ok value ∧ (next value).result = .ok found := by
  change (outcome.andThen next).result = .ok found ↔ _
  unfold andThen
  cases outcome.result with
  | ok => simp
  | error => simp

/-- Computing with every item leaves what the computation leaves for each of them. -/
theorem result_each_eq_ok {compute : α → Outcome β} {items : List α} {results : List β} :
    (each compute items).result = .ok results ↔
      List.Forall₂ (fun item result => (compute item).result = .ok result) items results := by
  induction items generalizing results with
  | nil => simp [each, value, eq_comm]
  | cons _ _ ih =>
    simp only [each_cons, result_bind_eq_ok, ih, result_pure, Except.ok.injEq,
      List.forall₂_cons_left_iff]
    constructor
    · rintro ⟨first, firstComputed, others, othersComputed, rfl⟩
      exact ⟨first, others, firstComputed, othersComputed, rfl⟩
    · rintro ⟨first, others, firstComputed, othersComputed, rfl⟩
      exact ⟨first, firstComputed, others, othersComputed, rfl⟩

theorem result_keep {holds : α → Outcome Bool} {kept : α → Bool} {items : List α}
    (answers : ∀ item ∈ items, (holds item).result = .ok (kept item)) :
    (keep holds items).result = .ok (items.filter kept) := by
  induction items with
  | nil => rfl
  | cons _ _ ih =>
    obtain ⟨isAnswer, others⟩ := List.forall_mem_cons.mp answers
    simp [keep, andThen, isAnswer, ih others, value, List.filter_cons]

end Outcome

end Weave
