import Weave.Proofs.Eval.Made
import Weave.Proofs.Script.Plain

namespace Weave

/-!
# Texts that are left as they are

An engine that does not look into texts: one without an interpolation stands for itself, and what
one with an interpolation stands for is a parameter, a reading.  A reading may log and fail, so an
evaluation that comes upon such a text shows it.  On plain expressions, where all functions are made
of plain expressions, this engine and the engine of the language leave the same, whatever the
reading is.
-/

/-! ## Engines with a reading -/

/-- What a text with an interpolation stands for. -/
abbrev Reading := Engine → Context → String → Outcome Value

/-- Evaluate the outermost node of an expression, where a text without an interpolation stands for
itself. -/
def Eval.stepReading (reading : Reading) (engine : Engine) (ctx : Context) :
    Expr → Outcome Value
  | .text value =>
    if interpolationMark <:+: value.toList then reading engine ctx value
    else return .text value
  | expr => Eval.step engine ctx expr

/-- The engine for evaluations up to a depth that leaves texts to a reading. -/
def Engine.upToReading (reading : Reading) (setting : Setting) : Nat → Engine
  | 0 => Engine.exhausted
  | depth + 1 =>
    { eval := Eval.stepReading reading (upToReading reading setting depth)
      call := Call.step setting (upToReading reading setting depth) }

/-- Evaluate an expression and leave texts to a reading. -/
def Expr.evalReading (reading : Reading) (setting : Setting) (ctx : Context) (expr : Expr) :
    Outcome Value :=
  (Engine.upToReading reading setting Engine.depth).eval ctx expr

/-! ## Functions of plain expressions -/

/-- Plain expressions are fine, wherever they were declared. -/
def Making.plain : Making where
  fine := Expr.IsPlain
  declares := fun _ _ declaration => Expr.IsPlain (.lambda declaration.parameters declaration.body)
  fine_child := fun isChild isPlain => isPlain.child isChild
  fine_parsed := fun isRead => Expr.parse_leaves _ _ isRead
  fine_script := fun isRead => by
    obtain ⟨⟨bindings, functions⟩, body⟩ := Script.parse_leaves _ _ isRead
    exact ⟨bindings, fun declaration member =>
      .lambda trivial (functions declaration member).parameters (functions declaration member).body,
      body⟩
  fine_declared := fun isPlain => isPlain
  declares_new := fun _ _ isPlain => isPlain
  declares_later := fun _ isPlain => isPlain

/-! ## Evaluations of any depth -/

/-- A plain node is evaluated alike, since a text on its own is never left to the reading. -/
theorem Eval.stepReading_of_isPlain (reading : Reading) (engine : Engine) (ctx : Context)
    {expr : Expr} (isPlain : expr.IsPlain) :
    stepReading reading engine ctx expr = step engine ctx expr := by
  cases expr with
  | text =>
    have notMarked := isPlain.here
    rw [step_text_of_plain (cutAt?_interpolationMark.mpr notMarked), stepReading, if_neg notMarked]
  | _ => rfl

theorem Engine.upTo_follows_upToReading (reading : Reading) {setting : Setting}
    (inFrames : FramesAll (Making.plain.Holds count) setting.frames) (depth : Nat) :
    Engine.Follows (fun _ => False) (Making.plain.sight count) (Engine.upTo setting depth)
      (Engine.upToReading reading setting depth) := by
  have keepsSame : Function.KeepsSame (Making.plain.sight count).change := fun _ _ => rfl
  induction depth with
  | zero => exact ⟨fun _ _ => .throw _, fun _ _ => .throw _⟩
  | succ _ ih =>
    refine ⟨fun isPlain alike => ?_, fun sameCallee same =>
      Call.step_follows ih (Making.settings inFrames) sameCallee same fun _ _ => keepsSame⟩
    unfold upToReading
    dsimp only
    rw [Eval.stepReading_of_isPlain reading _ _ isPlain]
    exact Eval.step_follows ih isPlain alike fun _ _ _ => keepsSame

end Weave
