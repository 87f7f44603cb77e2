import Weave.Proofs.Reader

namespace Weave

/-!
# What a computation leaves

A computation that may fail leaves a property if the value that it ends with has it.  A failure
leaves anything, unless it is also said with what faults the computation may end.
-/

/-- The value that the computation ends with has the property. -/
def Leaves {ε α : Type} (holds : α → Prop) (result : Except ε α) : Prop :=
  ∀ found, result = .ok found → holds found

namespace Leaves

variable {ε α β : Type} {holds : α → Prop} {after : β → Prop} {result : Except ε α}

theorem ok (property : holds found) : Leaves holds (.ok found : Except ε α) := by
  rintro _ ⟨⟩
  exact property

theorem error (fault : ε) : Leaves holds (.error fault) := nofun

theorem any (result : Except ε α) : Leaves (fun _ => True) result :=
  fun _ _ => trivial

theorem imp (leaves : Leaves holds result) (implies : ∀ found, holds found → weaker found) :
    Leaves weaker result :=
  fun found isFound => implies found (leaves found isFound)

/-- What goes on may rely on what was left. -/
theorem bind (leaves : Leaves holds result)
    (nextLeaves : ∀ found, holds found → Leaves after (next found)) :
    Leaves after (result >>= next) := by
  intro last isLast
  obtain ⟨found, isFound, isNext⟩ := except_bind_eq_ok.mp isLast
  exact nextLeaves found (leaves found isFound) last isNext

end Leaves

/-- The computation ends with a value that has the property or with a fault that may be raised. -/
structure Concludes {ε α : Type} (mayRaise : ε → Prop) (holds : α → Prop) (result : Except ε α) :
    Prop where
  leaves : Leaves holds result
  raises : ∀ fault, result = .error fault → mayRaise fault

namespace Concludes

variable {ε α β : Type} {mayRaise : ε → Prop} {holds : α → Prop} {after : β → Prop}
  {result : Except ε α}

theorem ok (property : holds found) : Concludes mayRaise holds (.ok found) := ⟨.ok property, nofun⟩

theorem error (isRaised : mayRaise fault) : Concludes mayRaise holds (.error fault) := by
  refine ⟨.error fault, ?_⟩
  rintro _ ⟨⟩
  exact isRaised

theorem imp (concludes : Concludes mayRaise holds result)
    (raisedToo : ∀ fault, mayRaise fault → mayRaiseToo fault)
    (implies : ∀ found, holds found → weaker found) :
    Concludes mayRaiseToo weaker result :=
  ⟨concludes.leaves.imp implies, fun fault raised =>
    raisedToo fault (concludes.raises fault raised)⟩

theorem bind (concludes : Concludes mayRaise holds result)
    (nextConcludes : ∀ found, holds found → Concludes mayRaise after (next found)) :
    Concludes mayRaise after (result >>= next) := by
  cases result with
  | error fault => exact error (concludes.raises fault rfl)
  | ok found => exact nextConcludes found (concludes.leaves found rfl)

theorem mapM {items : List β} (each : ∀ item ∈ items, Concludes mayRaise holds (compute item)) :
    Concludes mayRaise (fun results => ∀ result ∈ results, holds result) (items.mapM compute) := by
  induction items with
  | nil => exact ok (by simp)
  | cons _ _ ih =>
    rw [List.forall_mem_cons] at each
    rw [List.mapM_cons]
    refine each.1.bind fun found property => ?_
    refine (ih each.2).bind fun others othersProperty => ?_
    exact ok (List.forall_mem_cons.mpr ⟨property, othersProperty⟩)

end Concludes

theorem Leaves.mapM {ε α β : Type} {holds : α → Prop} {compute : β → Except ε α} {items : List β}
    (leaves : ∀ item ∈ items, Leaves holds (compute item)) :
    Leaves (fun results => ∀ result ∈ results, holds result) (items.mapM compute) :=
  (Concludes.mapM fun item mem => ⟨leaves item mem, fun _ _ => trivial⟩).leaves

end Weave
