import Weave.Builtin.Run

namespace Weave

/-!
# Where an expression is evaluated

An expression sees a payload and variables.  Functions of a header see the variables of
that header as they are when the function is called, so headers are kept apart as
numbered frames.
-/

/-- The payload and the variables of a header. -/
structure Frame where
  payload : Value
  bindings : Bindings

/-- What holds for a whole evaluation. -/
structure Setting where
  ambient : Ambient
  frames : List Frame

/-- What one expression sees; the offset is added to the lines of its positions. -/
structure Context where
  payload : Value
  bindings : Bindings
  lineOffset : Nat

/-- How nested expressions are evaluated and functions called. -/
structure Engine where
  eval : Context → Expr → Outcome Value
  call : Caller

namespace Context

/-- The value of a name.  The payload, the variables as a whole and the built-in functions
cannot be hidden by a variable. -/
def resolve (context : Context) (name : String) (position : Position) : Outcome Value :=
  if name == "payload" then return context.payload
  else if name == "vars" then return context.bindings.toObject
  else if name == "_binary_plus" then
    return .function (.plus (position.line + context.lineOffset) position.column)
  else
    match Builtin.named? name with
    | some builtin => return .function (.builtin builtin)
    | none =>
      match context.bindings.find? name with
      | some value => return value
      | none =>
        throw (.refused
          (.unresolved name (position.line + context.lineOffset) position.column) none)

def placeholderName (level : Nat) : String :=
  if level == 1 then "$" else "$$"

def placeholder (context : Context) (level : Nat) (position : Position) : Outcome Value :=
  match context.bindings.find? (placeholderName level) with
  | some value => return value
  | none => throw (.refused (.noPlaceholder level position.line position.column) none)

end Context

end Weave
