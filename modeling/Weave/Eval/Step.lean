import Weave.Eval.Call
import Weave.Eval.Template
import Weave.Expr.Describe
import Weave.Expr.Placeholder
import Weave.Value.Select

namespace Weave

/-!
# Evaluation

One step evaluates the outermost node of an expression and leaves what is nested in it
to an engine.  Stacking steps gives an engine for every depth; an evaluation that is
nested deeper than the engine ends with a fault of its own.
-/

namespace Eval

def parsed (result : Except ParseFault Expr) : Outcome Expr :=
  match result with
  | .ok expr => return expr
  | .error fault => throw (.malformed fault none)

/-- What a piece of a template becomes. -/
def piece (engine : Engine) (context : Context) : TemplatePiece → Outcome (List Char)
  | .plain text => return text
  | .source text => do
    let expr ← parsed (Expr.parse text)
    return (← (← engine.eval context expr).embedded).toList

/-- Put a template together. -/
def template (engine : Engine) (context : Context) (text : String) : Outcome Value := do
  let pieces ← Outcome.each (piece engine context) (TemplatePiece.ofText text)
  return .text (String.ofList pieces.flatten)

/-- A value as the key of an entry. -/
def keyOf : Value → Except Fault Key
  | .text name => .ok (.text name)
  | value => do return .text (← value.interpolated)

/-- The entries of an object; a key that comes again sets its entry anew. -/
def fields (engine : Engine) (context : Context) :
    Entries → List (Expr × Expr) → Outcome Entries
  | entries, [] => return entries
  | entries, (keyExpr, valueExpr) :: rest => do
    let key ← keyOf (← engine.eval context keyExpr)
    let value ← engine.eval context valueExpr
    fields engine context (entries.insert key value) rest

/-- The value of an argument; an expression with placeholders becomes a function. -/
def argument (engine : Engine) (context : Context) (function : Expr) (expr : Expr × Nat) :
    Outcome Value :=
  if function.isImplicitFunction expr.1 expr.2 then
    return .function (.implicit expr.1 context.bindings context.payload
      (expr.1.hasPlaceholder (· == 2)))
  else engine.eval context expr.1

/-- Call a function with evaluated arguments. -/
def call (engine : Engine) (context : Context) (function : Expr) (arguments : List Expr) :
    Outcome Value := do
  let callee ← engine.eval context function
  let values ← Outcome.each (argument engine context function) arguments.zipIdx
  match callee with
  | .function callee => engine.call callee values
  | _ => throw (.mismatch (.notCallable function.describe))

/-- What the guard and the result of a case see: the matched value under the case's name. -/
def bound (context : Context) (binding : Option String) (value : Value) : Context :=
  match binding with
  | none | some "" => context
  | some name => ⟨context.payload, context.bindings.set name value, 0⟩

/-- Whether a value meets the pattern of a case. -/
def meets (engine : Engine) (context : Context) (value : Value) : Option Expr → Outcome Bool
  | none => return true
  | some matcher => do return value.matchesValue (← engine.eval context matcher)

/-- Whether the guard of a case holds. -/
def passes (engine : Engine) (context : Context) : Option Expr → Outcome Bool
  | none => return true
  | some guard => do return (← engine.eval context guard).isTruthy

/-- The result of the first case that a value meets. -/
def cases (engine : Engine) (context : Context) (value : Value) :
    List (MatchCase Expr) → Outcome Value
  | [] => return .null
  | ⟨none, result⟩ :: _ => engine.eval context result
  | ⟨some pattern, result⟩ :: rest => do
    let inner := bound context pattern.binding value
    if ← meets engine context value pattern.matcher then
      if ← passes engine inner pattern.guard then
        engine.eval inner result
      else
        cases engine context value rest
    else
      cases engine context value rest

/-- A part of a value; a selector that is safe takes null for a part that cannot be there. -/
def property (value : Value) (selector : Selector) (nullSafe : Bool) : Except Fault Value :=
  tryCatch (value.select selector) fun fault =>
    if nullSafe && fault.isKindFault then .ok .null else .error fault

/-- Evaluate an expression by what evaluates its parts. -/
def step (engine : Engine) (context : Context) : Expr → Outcome Value
  | .object pairs => do return .record (← fields engine context [] pairs)
  | .list elements => do return .array (← Outcome.each (engine.eval context) elements)
  | .text value => template engine context value
  | .template parts => do
    let texts ← Outcome.each
      (fun part => do
        let value ← engine.eval context part
        (value.interpolated : Except Fault String))
      parts
    return .text (String.join texts)
  | .number value => return Value.simpleNumber value
  | .boolean value => return .bool value
  | .null => return .null
  | .name name position => context.resolve name position
  | .placeholder level position => context.placeholder level position
  | .property base selector nullSafe => do
    let value ← engine.eval context base
    property value selector nullSafe
  | .index base place => do
    let value ← engine.eval context base
    let index ← engine.eval context place
    value.pickAt index
  | .call function arguments => call engine context function arguments
  | .orElse left right => do
    match ← engine.eval context left with
    | .null => engine.eval context right
    | value => return value
  | .conditional condition whenTrue whenFalse => do
    if (← engine.eval context condition).isTruthy then engine.eval context whenTrue
    else engine.eval context whenFalse
  | .lambda parameters body =>
    return .function (.lambda parameters body context.bindings context.payload)
  | .matching subject alternatives => do
    cases engine context (← engine.eval context subject) alternatives
  | .coercion value target options => do
    let result ← engine.eval context value
    match options with
    | some options => let _ ← engine.eval context options
    | none => pure ()
    (result.coerce target : Except Fault Value)

end Eval

namespace Engine

/-- The engine that gives up. -/
def exhausted : Engine where
  eval _ _ := throw .exhausted
  call _ _ := throw .exhausted

/-- The engine that evaluates one node more than another. -/
def deeper (setting : Setting) (engine : Engine) : Engine where
  eval := Eval.step engine
  call := Call.step setting engine

/-- The engine for a depth of nesting. -/
def upTo (setting : Setting) : Nat → Engine
  | 0 => exhausted
  | depth + 1 => (upTo setting depth).deeper setting

/-- How deep evaluation may go. -/
def depth : Nat := 2000

end Engine

/-- Evaluate an expression. -/
def Expr.eval (setting : Setting) (context : Context) (expr : Expr) : Outcome Value :=
  (Engine.upTo setting Engine.depth).eval context expr

/-- Call a function. -/
def Function.apply (setting : Setting) : Caller :=
  (Engine.upTo setting Engine.depth).call

end Weave
