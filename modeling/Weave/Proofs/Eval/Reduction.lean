import Weave.Proofs.Eval.Engine
import Weave.Session

namespace Weave

/-!
# Reductions

A function of two parameters is folded over the items of a list from the left.  The first item is
given to it alone, so the fold starts from the default of the second parameter, and from null where
a placeholder stands for it; without a default there is nothing to start from.  An empty list is
null before the function is looked at.
-/

namespace Core

variable (call : Caller)

/-- The left fold of a function: each item is combined with what the items in front of it left. -/
def foldLeft (callee : Function) (start : Value) (items : List Value) : Outcome Value :=
  items.foldlM (fun accumulator item => call callee [item, accumulator]) start

variable {callee : Function}

theorem reduceFrom_eq_foldLeft (takesTwo : callee.parameterCount? = some 2) (acc : Value)
    (items : List Value) :
    reduceFrom call (.function callee) acc items = foldLeft call callee acc items := by
  induction items generalizing acc with
  | nil => rfl
  | cons item _ ih =>
    have step :
        reduceStep call (.function callee) item acc = call callee [item, acc] := by
      simp only [reduceStep, takesTwo]
    rw [reduceFrom, step]
    exact bind_congr ih

/-- A function that replaces a missing accumulator by something is folded from there. -/
theorem reduceItems_eq_foldLeft (takesTwo : callee.parameterCount? = some 2)
    (calledAlone :
      call callee [first] = start >>= fun acc => call callee [first, acc])
    (origin : Origin) (rest : List Value) :
    reduceItems call (.list origin (first :: rest)) (.function callee) =
      start >>= fun acc => foldLeft call callee acc (first :: rest) := by
  have invoked : invoke call (.function callee) [first] = call callee [first] := by
    simp only [invoke, takesTwo]
    rfl
  calc
    reduceItems call (.list origin (first :: rest)) (.function callee)
    _ = call callee [first] >>= fun acc =>
        reduceFrom call (.function callee) acc rest := by
      rw [← invoked]
      rfl
    _ = start >>= fun acc => foldLeft call callee acc (first :: rest) := by
      rw [calledAlone, bind_assoc]
      refine bind_congr fun acc => ?_
      exact bind_congr fun next => reduceFrom_eq_foldLeft call takesTwo next rest

end Core

/-! ## Calls without an accumulator -/

namespace Call

variable (engine : Engine) (first : Value)

/-- What stands for a parameter that is given no argument. -/
def missing (callee : Callee) (payload : Value) (locals : Bindings) (parameter : Parameter Expr) :
    Outcome Value :=
  match parameter.fallback with
  | some fallback => engine.eval ⟨payload, locals, 0⟩ fallback
  | none => .fault (.mismatch (.missingArgument parameter.name callee))

theorem bindAll_first (callee : Callee) (payload : Value) (locals : Bindings)
    (item acc : Parameter Expr) :
    bindAll engine callee payload locals [item, acc] [first] =
      missing engine callee payload (locals.set item.name first) acc >>= fun value =>
        bindAll engine callee payload locals [item, acc] [first, value] := by
  obtain ⟨_, fallback, _⟩ := acc
  cases fallback <;> rfl

end Call

/-! ## Reducing lists -/

namespace Engine

/-- The name of a built-in function calls it with the values of two operands; the second operand may
stand for a function. -/
theorem eval_operator (isBuiltin : Builtin.named? name = some builtin) (pos : Position)
    (setting : Setting) (depth : Nat) (ctx : Context) (left right : Expr) :
    (upTo setting (depth + 2)).eval ctx (.call (.name name pos) [left, right]) =
      (do
        let first ← (upTo setting (depth + 1)).eval ctx left
        let second ← Eval.argument (upTo setting (depth + 1)) ctx (.name name pos) (right, 1)
        (upTo setting (depth + 1)).call (.builtin builtin) [first, second]) := by
  have resolved :
      (upTo setting (depth + 1)).eval ctx (.name name pos) = pure (.function (.builtin builtin)) :=
    Context.resolve_of_named isBuiltin ctx pos
  have notFunction : (Expr.name name pos).isImplicitFunction left 0 = false := by
    cases left <;> rfl
  have evals :
      Eval.argument (upTo setting (depth + 1)) ctx (.name name pos) (left, 0) =
        (upTo setting (depth + 1)).eval ctx left := by
    rw [Eval.argument, if_neg (by simp [notFunction])]
  rw [eval_call, Eval.call, resolved]
  simp only [List.zipIdx_cons, Outcome.each_cons, evals, bind_assoc]
  rfl

/-- A reduction is the left fold of a function of two parameters over all items of a list that is
not empty.  It starts from the default of the second parameter, which sees the first item, and from
null in an expression with placeholders; without a default the function lacks an argument.  Whatever
the function is, an empty list is null. -/
theorem reduce_eq_foldLeft (session : Session) (ambient : Ambient) (frame : Frame) (depth : Nat)
    (origin : Origin) :
    let engine := upTo (session.setting ambient frame)
    let reduced (items : List Value) (callee : Function) : Outcome Value :=
      (engine (depth + 2)).call (.builtin .reduceItems) [.list origin items, .function callee]
    let folded := Core.foldLeft (engine (depth + 1)).call
    (∀ ctx sequence function,
      (engine (depth + 3)).eval ctx (.binary "_infix_reduce" sequence function) =
        (do
          let items ← (engine (depth + 2)).eval ctx sequence
          let callee ←
            Eval.argument (engine (depth + 2)) ctx (.builtin "_infix_reduce") (function, 1)
          (engine (depth + 2)).call (.builtin .reduceItems) [items, callee])) ∧
    (∀ callee, reduced [] callee = pure .null) ∧
    (∀ first rest item name type? body (captured : Bindings) payload, (∀ initial,
        reduced (first :: rest)
            (.lambda [item, ⟨name, some initial, type?⟩] body captured payload) =
          (engine depth).eval ⟨payload, captured.set item.name first, 0⟩ initial >>= fun start =>
            folded (.lambda [item, ⟨name, some initial, type?⟩] body captured payload) start
              (first :: rest)) ∧
      reduced (first :: rest) (.lambda [item, ⟨name, none, type?⟩] body captured payload) =
        .fault (.mismatch (.missingArgument name .lambda))) ∧
    (∀ first rest body captured payload,
      reduced (first :: rest) (.implicit body captured payload true) =
        folded (.implicit body captured payload true) .null (first :: rest)) ∧
    ∀ first rest function item name type? body returns,
      (∀ initial,
        reduced (first :: rest)
            (.declared session.frames.length
              ⟨function, [item, ⟨name, some initial, type?⟩], body, returns⟩) =
          (engine depth).eval ⟨frame.payload, frame.bindings.set item.name first, 0⟩ initial >>=
            fun start =>
              folded
                (.declared session.frames.length
                  ⟨function, [item, ⟨name, some initial, type?⟩], body, returns⟩)
                start (first :: rest)) ∧
      reduced (first :: rest)
          (.declared session.frames.length
            ⟨function, [item, ⟨name, none, type?⟩], body, returns⟩) =
        .fault (.mismatch (.missingArgument name .function)) := by
  intro engine reduced folded
  refine ⟨fun ctx sequence function =>
      eval_operator (by decide) .nowhere _ _ ctx sequence function,
    fun callee => rfl, fun first rest item name type? body captured payload => ?_,
    fun first rest body captured payload => ?_,
    fun first rest function item name type? body returns => ?_⟩
  · have asFold (accumulator : Parameter Expr) :
        reduced (first :: rest) (.lambda [item, accumulator] body captured payload) =
          Call.missing (engine depth) .lambda payload (captured.set item.name first) accumulator >>=
            fun start =>
              folded (.lambda [item, accumulator] body captured payload) start (first :: rest) := by
      refine Core.reduceItems_eq_foldLeft (engine (depth + 1)).call rfl ?_ origin rest
      change Call.lambda _ _ _ _ _ _ = _
      rw [Call.lambda, Call.bindAll_first, bind_assoc]
      rfl
    exact ⟨fun initial => asFold ⟨name, some initial, type?⟩, asFold ⟨name, none, type?⟩⟩
  · have calledAlone :
        (engine (depth + 1)).call (.implicit body captured payload true) [first] =
          (pure .null : Outcome Value) >>= fun accumulator =>
            (engine (depth + 1)).call (.implicit body captured payload true) [first, accumulator] :=
      rfl
    exact Core.reduceItems_eq_foldLeft (engine (depth + 1)).call rfl calledAlone origin rest
  · have asFold (accumulator : Parameter Expr) :
        reduced (first :: rest)
            (.declared session.frames.length ⟨function, [item, accumulator], body, returns⟩) =
          Call.missing (engine depth) .function frame.payload (frame.bindings.set item.name first)
              accumulator >>= fun start =>
            folded (.declared session.frames.length ⟨function, [item, accumulator], body, returns⟩)
              start (first :: rest) := by
      refine Core.reduceItems_eq_foldLeft (engine (depth + 1)).call rfl ?_ origin rest
      -- The function has the number of the header in which it is called.
      have isFrame :
          (session.setting ambient frame).frames[session.frames.length]? = some frame := by
        simp [Session.setting]
      have called (arguments : List Value) :
          (engine (depth + 1)).call
              (.declared session.frames.length ⟨function, [item, accumulator], body, returns⟩)
              arguments =
            Call.declared (engine depth) frame ⟨function, [item, accumulator], body, returns⟩
              arguments := by
        change Call.inFrame _ _ _ _ _ = _
        rw [Call.inFrame, isFrame]
      simp only [called, Call.declared, Call.bindAll_first, bind_assoc]
    exact ⟨fun initial => asFold ⟨name, some initial, type?⟩, asFold ⟨name, none, type?⟩⟩

end Engine

end Weave
