import Weave.Proofs.Outcome
import Weave.Proofs.Outcome.Leaves

namespace Weave

/-!
# Outcomes that are shared

Two computations leave the same outcome, and the value that they leave has a property.  What goes on
from there may rely on the property, so two computations that agree on values with the property
are the same when they are put together from shared parts.
-/

namespace Outcome

variable {α β : Type}

/-- The outcomes are the same, and a value that they leave has the property. -/
structure Shares (holds : α → Prop) (first second : Outcome α) : Prop where
  same : first = second
  value : Leaves holds first.result

namespace Shares

variable {holds : α → Prop} {after : β → Prop} {first second : Outcome α}

theorem pure (property : holds found) : Shares holds (Pure.pure found) (Pure.pure found) :=
  ⟨rfl, .ok property⟩

theorem throw (raised : Fault) :
    Shares holds (MonadExceptOf.throw raised) (MonadExceptOf.throw raised) :=
  ⟨rfl, .error raised⟩

theorem lift {result : Except Fault α} (leaves : Leaves holds result) :
    Shares holds (liftM result) (liftM result) :=
  ⟨rfl, leaves⟩

theorem any (outcome : Outcome α) : Shares (fun _ => True) outcome outcome :=
  ⟨rfl, .any _⟩

/-- What goes on with a shared value may rely on its property. -/
theorem bind (shares : Shares holds first second)
    (nextShares : ∀ found, holds found → Shares after (firstNext found) (secondNext found)) :
    Shares after (first >>= firstNext) (second >>= secondNext) := by
  obtain ⟨rfl, property⟩ := shares
  obtain ⟨logs, result⟩ := first
  cases result with
  | error raised => exact ⟨rfl, .error raised⟩
  | ok found =>
    obtain ⟨same, nextProperty⟩ := nextShares found (property found rfl)
    refine ⟨?_, nextProperty⟩
    change Outcome.mk _ _ = Outcome.mk _ _
    rw [same]

theorem tryCatch (shares : Shares holds first second)
    (handled : ∀ raised, Shares holds (firstHandle raised) (secondHandle raised)) :
    Shares holds (MonadExcept.tryCatch first firstHandle)
      (MonadExcept.tryCatch second secondHandle) := by
  obtain ⟨rfl, property⟩ := shares
  obtain ⟨logs, result⟩ := first
  cases result with
  | ok => exact ⟨rfl, property⟩
  | error raised =>
    obtain ⟨same, handledProperty⟩ := handled raised
    refine ⟨?_, handledProperty⟩
    change Outcome.mk _ _ = Outcome.mk _ _
    rw [same]

end Shares

end Outcome

end Weave
