import Weave.Eval.Step
import Weave.Proofs.Outcome

open List

namespace Weave

/-!
# Engines that leave a value

An evaluation that leaves a value was not exhausted, so it is a step of an engine that
is one node shallower.
-/

variable {ctx : Context}

theorem Context.resolve_of_named (isBuiltin : Builtin.named? name = some builtin)
    (ctx : Context) (pos : Position) :
    ctx.resolve name pos = pure (.function (.builtin builtin)) := by
  have reserved : ∀ word ∈ ["payload", "vars", "_binary_plus"], Builtin.named? word = none := by
    decide
  have notReserved : name ∉ ["payload", "vars", "_binary_plus"] := by
    intro mem
    rw [reserved name mem] at isBuiltin
    cases isBuiltin
  simp only [mem_cons, not_or] at notReserved
  simp [Context.resolve, notReserved, isBuiltin]

theorem Eval.step_text_of_plain {text : String}
    (isPlain : Text.cutAt? interpolationMark text.toList = none) (engine : Engine) (ctx : Context) :
    Eval.step engine ctx (.text text) = pure (.text text) := by
  have onePiece : TemplatePiece.ofText text = [.plain text.toList] := by
    simp [TemplatePiece.ofText, templatePieces, isPlain]
  have onlyText : [text.toList].flatten = text.toList := by simp
  calc
    Eval.step engine ctx (.text text)
    _ = pure (.text (String.ofList [text.toList].flatten)) := by
      rw [Eval.step, Eval.template, onePiece]
      rfl
    _ = pure (.text text) := by
      rw [onlyText, String.ofList_toList]

namespace Engine

variable {setting : Setting} {depth : Nat} {value : Value}

theorem step_of_eval (evals : ((upTo setting depth).eval ctx expr).result = .ok value) :
    ∃ shallower, (Eval.step (upTo setting shallower) ctx expr).result = .ok value := by
  cases depth with
  | zero => simp [upTo, exhausted] at evals
  | succ shallower => exact ⟨shallower, evals⟩

theorem step_of_call (called : ((upTo setting depth).call callee arguments).result = .ok value) :
    ∃ shallower, (Call.step setting (upTo setting shallower) callee arguments).result =
      .ok value := by
  cases depth with
  | zero => simp [upTo, exhausted] at called
  | succ shallower => exact ⟨shallower, called⟩

theorem eval_call (setting : Setting) (depth : Nat) (ctx : Context) (fn : Expr)
    (arguments : List Expr) : (upTo setting (depth + 1)).eval ctx (.call fn arguments) =
      Eval.call (upTo setting depth) ctx fn arguments :=
  rfl

theorem resolve_of_eval
    (evals : ((upTo setting depth).eval ctx (.name name pos)).result = .ok value) :
    (ctx.resolve name pos).result = .ok value := by
  obtain ⟨_, step⟩ := step_of_eval evals
  exact step

theorem eq_of_eval_text {text : String} (isPlain : Text.cutAt? interpolationMark text.toList = none)
    (evals : ((upTo setting depth).eval ctx (.text text)).result = .ok value) :
    value = .text text := by
  obtain ⟨_, step⟩ := step_of_eval evals
  rw [Eval.step_text_of_plain isPlain] at step
  exact (Except.ok.inj step).symm

/-- An operator with two operands is called with their values. -/
theorem call_of_eval_operator (notImplicit : operator ∉ Expr.takesPlaceholders)
    (evals : ((upTo setting depth).eval ctx (.call (.name operator pos) [left, right])).result =
        .ok value) :
    ∃ callee shallower leftValue rightValue,
      (ctx.resolve operator pos).result = .ok (.function callee) ∧
        ((upTo setting shallower).eval ctx left).result = .ok leftValue ∧
        ((upTo setting shallower).eval ctx right).result = .ok rightValue ∧
        ((upTo setting shallower).call callee [leftValue, rightValue]).result = .ok value := by
  have explicit : ∀ argument place,
      (Expr.name operator pos).isImplicitFunction argument place = false := by
    intro argument place
    cases argument <;> simp [Expr.isImplicitFunction, notImplicit]
  obtain ⟨shallower, step⟩ := step_of_eval evals
  simp only [Eval.step, Eval.call, Outcome.result_bind_eq_ok, Outcome.result_each_eq_ok,
    Eval.argument, explicit] at step
  obtain ⟨callee, resolved, _, computed, called⟩ := step
  obtain ⟨leftValue, _, leftComputed, othersComputed, rfl⟩ := forall₂_cons_left_iff.mp computed
  obtain ⟨rightValue, _, rightComputed, noRest, rfl⟩ := forall₂_cons_left_iff.mp othersComputed
  obtain rfl := forall₂_nil_left_iff.mp noRest
  cases callee with
  | function callee =>
    exact ⟨callee, shallower, leftValue, rightValue, resolve_of_eval resolved, leftComputed,
      rightComputed, called⟩
  | _ => simp at called

end Engine

end Weave
