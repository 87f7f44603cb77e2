import Weave.Proofs.Outcome
import Weave.Proofs.Outcome.Leaves

open List

namespace Weave

/-!
# Outcomes that follow others

A computation that may refuse to go on is compared with one that does not.  Unless it refuses, both
log the same lines and leave the same fault, or values that are related.  Computations that do not
log are compared first.
-/

/-- The two look the same through a view, and both are good. -/
structure SameBy {α γ : Type} (view : α → γ) (good : α → Prop) (left right : α) : Prop where
  seen : view left = view right
  left : good left
  right : good right

theorem SameBy.forall₂_iff : Forall₂ (SameBy view good) items others ↔
      SameBy (map view) (fun items => ∀ item ∈ items, good item) items others := by
  induction items generalizing others with
  | nil =>
    cases others with
    | nil => exact ⟨fun _ => ⟨rfl, by simp, by simp⟩, fun _ => .nil⟩
    | cons => exact ⟨nofun, fun same => by simpa using same.seen⟩
  | cons _ _ ih =>
    cases others with
    | nil => exact ⟨nofun, fun same => by simpa using same.seen⟩
    | cons =>
      rw [forall₂_cons, ih]
      constructor
      · rintro ⟨first, further⟩
        exact ⟨congrArg₂ (· :: ·) first.seen further.seen,
          forall_mem_cons.mpr ⟨first.left, further.left⟩,
          forall_mem_cons.mpr ⟨first.right, further.right⟩⟩
      · rintro ⟨seen, left, right⟩
        obtain ⟨seenFirst, seenRest⟩ := cons.inj seen
        rw [forall_mem_cons] at left right
        exact ⟨⟨seenFirst, left.1, right.1⟩, ⟨seenRest, left.2, right.2⟩⟩

/-! ## Results without logging -/

/-- Both computations fail with one fault, or leave values that are related. -/
inductive Alongside {α β : Type} (rel : α → β → Prop) : Except Fault α → Except Fault β → Prop
  | ok (same : rel found other) : Alongside rel (.ok found) (.ok other)
  | error (raised : Fault) :
      Alongside rel (.error raised) (.error raised)

namespace Alongside

variable {α β γ δ : Type} {rel : α → β → Prop} {after : γ → δ → Prop}

theorem error_of_eq (same : raised = other) : Alongside rel (.error raised) (.error other) :=
  same ▸ .error raised

theorem imp (along : Alongside rel left right)
    (implies : ∀ found other, rel found other → weaker found other) :
    Alongside weaker left right := by
  cases along with
  | ok same => exact .ok (implies _ _ same)
  | error raised => exact .error raised

theorem bind (first : Alongside rel left right) (second :
      ∀ found other, rel found other → Alongside after (leftNext found) (rightNext other)) :
    Alongside after (left >>= leftNext) (right >>= rightNext) := by
  cases first with
  | ok same => exact second _ _ same
  | error raised => exact .error raised

theorem bind_same (result : Except Fault α)
    (second : ∀ found, Alongside after (leftNext found) (rightNext found)) :
    Alongside after (result >>= leftNext) (result >>= rightNext) := by
  cases result with
  | ok found => exact second found
  | error raised => exact .error raised

theorem mapM (computes :
      ∀ item other, rel item other → Alongside after (compute item) (otherCompute other))
    {items : List α} {others : List β} (same : Forall₂ rel items others) :
    Alongside (Forall₂ after) (items.mapM compute) (others.mapM otherCompute) := by
  induction same with
  | nil => exact .ok .nil
  | cons sameFirst _ ih =>
    rw [mapM_cons, mapM_cons]
    refine bind (computes _ _ sameFirst) fun found otherFound sameFound => ?_
    exact bind ih fun more otherMore sameMore => .ok (.cons sameFound sameMore)

theorem foldlM (steps :
      ∀ state otherState, after state otherState → ∀ item other, rel item other →
        Alongside after (step state item) (otherStep otherState other))
    {items : List α} {others : List β} (same : Forall₂ rel items others)
    (sameState : after state otherState) :
    Alongside after (items.foldlM step state) (others.foldlM otherStep otherState) := by
  induction same generalizing state otherState with
  | nil => exact .ok sameState
  | cons sameFirst _ ih =>
    exact bind (steps _ _ sameState _ _ sameFirst) fun next otherNext sameNext => ih sameNext

theorem filterM (test : ∀ item other, rel item other → holds item = otherHolds other)
    {items : List α} {others : List β} (same : Forall₂ rel items others) :
    Alongside (Forall₂ rel) (items.filterM holds) (others.filterM otherHolds) := by
  have kept : ∀ {found : List α} {otherFound : List β}, Forall₂ rel found otherFound →
      Alongside (Forall₂ rel) (items.filterAuxM holds found)
        (others.filterAuxM otherHolds otherFound) := by
    induction same with
    | nil => exact fun sameFound => .ok sameFound
    | cons sameFirst _ ih =>
      intro found otherFound sameFound
      rw [filterAuxM, test _ _ sameFirst]
      refine bind_same _ fun isKept => ih ?_
      cases isKept with
      | true => exact .cons sameFirst sameFound
      | false => exact sameFound
  exact bind (kept .nil) fun _ _ sameFound => .ok (rel_reverse sameFound)

/-- What holds of the items that the first computation leaves is known besides. -/
theorem and {left : Except Fault (List α)} {right : Except Fault (List β)} {holds : α → Prop}
    (along : Alongside (Forall₂ rel) left right)
    (leaves : Leaves (fun items => ∀ item ∈ items, holds item) left) :
    Alongside (Forall₂ fun item other => holds item ∧ rel item other) left right := by
  cases along with
  | ok same => exact .ok ((forall₂_and_left _ _).mpr ⟨leaves _ rfl, same⟩)
  | error raised => exact .error raised

theorem eq_iff : Alongside Eq left right ↔ left = right := by
  constructor
  · rintro (same | _)
    · rw [same]
    · rfl
  · rintro rfl
    cases left with
    | ok => exact .ok rfl
    | error raised => exact .error raised

end Alongside

/-! ## Outcomes -/

namespace Outcome

variable {α β γ δ : Type} {refuses : Fault → Prop}

/-- The first outcome is a refusal, or both log the same and leave the same fault or related
values. -/
inductive Follows (refuses : Fault → Prop) (rel : α → β → Prop) : Outcome α → Outcome β → Prop
  | refused {left : Outcome α} {right : Outcome β} {raised : Fault}
      (isRaised : left.result = .error raised) (isRefusal : refuses raised) :
      Follows refuses rel left right
  | value (logs : List LogEntry) (same : rel found other) :
      Follows refuses rel ⟨logs, .ok found⟩ ⟨logs, .ok other⟩
  | fault (logs : List LogEntry) (raised : Fault) :
      Follows refuses rel ⟨logs, .error raised⟩ ⟨logs, .error raised⟩

namespace Follows

variable {rel : α → β → Prop} {after : γ → δ → Prop}

theorem throw (raised : Fault) :
    Follows refuses rel (MonadExceptOf.throw raised) (MonadExceptOf.throw raised) :=
  .fault [] raised

theorem pure (same : rel found other) :
    Follows refuses rel (Pure.pure found) (Pure.pure other) :=
  .value [] same

theorem refl (outcome : Outcome α) : Follows refuses Eq outcome outcome := by
  obtain ⟨logs, result⟩ := outcome
  cases result with
  | ok => exact .value logs rfl
  | error raised => exact .fault logs raised

theorem of_eq (same : left = right) : Follows refuses Eq left right := same ▸ refl left

theorem imp (follows : Follows refuses rel left right)
    (implies : ∀ found other, rel found other → weaker found other) :
    Follows refuses weaker left right := by
  cases follows with
  | refused isRaised isRefusal => exact .refused isRaised isRefusal
  | value logs same => exact .value logs (implies _ _ same)
  | fault logs raised => exact .fault logs raised

theorem lift (along : Alongside rel left right) :
    Follows refuses rel (liftM left) (liftM right) := by
  cases along with
  | ok same => exact .value [] same
  | error raised => exact .fault [] raised

/-- Lines that are logged before make no difference. -/
theorem behind {left : Outcome α} {right : Outcome β} (follows : Follows refuses rel left right)
    (logs : List LogEntry) :
    Follows refuses rel ⟨logs ++ left.logs, left.result⟩
      ⟨logs ++ right.logs, right.result⟩ := by
  cases follows with
  | refused isRaised isRefusal => exact .refused isRaised isRefusal
  | value more same => exact .value (logs ++ more) same
  | fault more raised => exact .fault (logs ++ more) raised

theorem bind (first : Follows refuses rel left right) (second :
      ∀ found other, rel found other →
        Follows refuses after (leftNext found) (rightNext other)) :
    Follows refuses after (left >>= leftNext) (right >>= rightNext) := by
  cases first with
  | refused isRaised isRefusal =>
    exact .refused (result_bind_of_error isRaised leftNext) isRefusal
  | fault logs raised => exact .fault logs raised
  | @value found other logs same => exact (second found other same).behind logs

theorem bind_same (outcome : Outcome α)
    (second : ∀ found, Follows refuses after (leftNext found) (rightNext found)) :
    Follows refuses after (outcome >>= leftNext) (outcome >>= rightNext) := by
  refine bind (refl outcome) fun found other same => ?_
  subst same
  exact second found

theorem each (compute : ∀ item other, rel item other →
        Follows refuses after (leftCompute item) (rightCompute other))
    (same : Forall₂ rel items others) :
    Follows refuses (Forall₂ after) (Outcome.each leftCompute items)
      (Outcome.each rightCompute others) := by
  induction same with
  | nil => exact pure .nil
  | cons sameFirst _ ih =>
    refine bind (compute _ _ sameFirst) fun found otherFound sameFound => ?_
    refine bind ih fun results otherResults sameResults => ?_
    exact pure (.cons sameFound sameResults)

theorem each_same {leftCompute : α → Outcome γ} {rightCompute : α → Outcome δ} {items : List α}
    (compute : ∀ item ∈ items, Follows refuses after (leftCompute item) (rightCompute item)) :
    Follows refuses (Forall₂ after) (Outcome.each leftCompute items)
      (Outcome.each rightCompute items) := by
  have same : Forall₂ (fun item other => item ∈ items ∧ item = other) items items :=
    forall₂_same.mpr fun item mem => ⟨mem, rfl⟩
  refine each (fun item other isSame => ?_) same
  obtain ⟨mem, rfl⟩ := isSame
  exact compute item mem

theorem keep (test :
      ∀ item other, rel item other → Follows refuses Eq (leftHolds item) (rightHolds other))
    (same : Forall₂ rel items others) :
    Follows refuses (Forall₂ rel) (Outcome.keep leftHolds items)
      (Outcome.keep rightHolds others) := by
  induction same with
  | nil => exact pure .nil
  | cons sameFirst _ ih =>
    refine bind (test _ _ sameFirst) fun kept otherKept sameKept => ?_
    subst sameKept
    refine bind ih fun results otherResults sameResults => pure ?_
    cases kept with
    | false => exact sameResults
    | true => exact .cons sameFirst sameResults

end Follows

end Outcome

end Weave
