import Weave.Eval.Context
import Weave.Value.Coerce

namespace Weave

/-!
# Calls of functions

How arguments meet parameters, which of several functions with one name is called, and
what a function does with its arguments.
-/

namespace Call

/-- Set every parameter to its argument, or to its default, which sees the parameters in front. -/
def bind (engine : Engine) (callee : Callee) (payload : Value) :
    Bindings → List (Parameter Expr) → List Value → Outcome Bindings
  | locals, [], _ => return locals
  | locals, parameter :: parameters, argument :: arguments =>
    bind engine callee payload (locals.set parameter.name argument) parameters arguments
  | locals, parameter :: parameters, [] => do
    match parameter.fallback with
    | some fallback =>
      let value ← engine.eval ⟨payload, locals, 0⟩ fallback
      bind engine callee payload (locals.set parameter.name value) parameters []
    | none => throw (.mismatch (.missingArgument parameter.name callee))

/-- The parameters with their values; there may be no more arguments than parameters. -/
def bindAll (engine : Engine) (callee : Callee) (payload : Value) (locals : Bindings)
    (parameters : List (Parameter Expr)) (arguments : List Value) :
    Outcome Bindings :=
  if arguments.length > parameters.length then throw (.mismatch (.tooManyArguments callee))
  else bind engine callee payload locals parameters arguments

/-- Let a placeholder stand for a parameter, unless it stands for something already. -/
def standFor (level : Nat) (parameter : Option (Parameter Expr)) (locals : Bindings) : Bindings :=
  match parameter.bind fun parameter => locals.find? parameter.name with
  | some value => locals.setNew (Context.placeholderName level) value
  | none => locals

/-- Call a lambda in what it captured. -/
def lambda (engine : Engine) (parameters : List (Parameter Expr)) (body : Expr)
    (captured : Bindings) (payload : Value) (arguments : List Value) :
    Outcome Value := do
  let locals ← bindAll engine .lambda payload captured parameters arguments
  let locals := standFor 2 parameters[1]? (standFor 1 parameters[0]? locals)
  engine.eval ⟨payload, locals, 0⟩ body

/-- Call an expression with placeholders. -/
def implicit (engine : Engine) (body : Expr) (captured : Bindings) (payload : Value)
    (arguments : List Value) :
    Outcome Value :=
  let locals := (captured.set "$" (arguments[0]?.getD .null)).set "$$" (arguments[1]?.getD .null)
  engine.eval ⟨payload, locals, 0⟩ body

/-- Call a function of a header; its result is coerced to the type it promises. -/
def declared (engine : Engine) (frame : Frame) (declaration : FunctionDecl)
    (arguments : List Value) :
    Outcome Value := do
  let locals ← bindAll engine .function frame.payload frame.bindings declaration.parameters
    arguments
  let result ← engine.eval ⟨frame.payload, locals, 0⟩ declaration.body
  match declaration.returns with
  | some type => (result.coerce type : Except Fault Value)
  | none => return result

/-- Whether arguments are of the declared types. -/
def accepts (declaration : FunctionDecl) (arguments : List Value) : Bool :=
  (declaration.parameters.zip arguments).all fun (parameter, argument) =>
    argument.fits parameter.type?

/-- The first function that accepts the arguments, or the last one. -/
def choose? (alternatives : List (Nat × FunctionDecl)) (arguments : List Value) :
    Option (Nat × FunctionDecl) :=
  (alternatives.find? fun alternative => accepts alternative.2 arguments).or
    alternatives.getLast?

/-- How many arguments a function of a module must be given; none if that is open. -/
def wantedCount? : Function → Option Nat
  | .builtin builtin => some builtin.mostArguments
  | .plus .. => some 3
  | callee => callee.parameterCount?

def fitsAll (types : Option (List (Option String))) (arguments : List Value) : Bool :=
  match types with
  | none | some [] => true
  | some types =>
    types.length == arguments.length &&
      (types.zip arguments).all fun (type, argument) =>
        match type with
        | some type => argument.fitsNames type
        | none => true

/-- The first function whose number and types of parameters suit the arguments, or the first. -/
def dispatch? (alternatives : List (Option (List (Option String)) × Function))
    (arguments : List Value) :
    Option Function :=
  let suits (alternative : Option (List (Option String)) × Function) : Bool :=
    (wantedCount? alternative.2).all (fun count => count == arguments.length) &&
      fitsAll alternative.1 arguments
  ((alternatives.find? suits).or alternatives.head?).map (·.2)

/-- Call a declared function in its script. -/
def inFrame (setting : Setting) (engine : Engine) (index : Nat) (declaration : FunctionDecl)
    (arguments : List Value) :
    Outcome Value :=
  match setting.frames[index]? with
  | some frame => declared engine frame declaration arguments
  | none => throw .exhausted

/-- Call a function by what evaluates its body. -/
def step (setting : Setting) (engine : Engine) : Caller := fun function arguments =>
  match function with
  | .builtin builtin => builtin.run setting.ambient engine.call arguments
  | .plus line column =>
    match arguments with
    | [left, right] => Core.plus left right (some ⟨line, column⟩)
    | _ => throw (.defect .operands)
  | .lambda parameters body captured payload =>
    lambda engine parameters body captured payload arguments
  | .implicit body captured payload _ => implicit engine body captured payload arguments
  | .declared frame declaration => inFrame setting engine frame declaration arguments
  | .overloaded alternatives =>
    match choose? alternatives arguments with
    | some (frame, declaration) => inFrame setting engine frame declaration arguments
    | none => throw (.defect .operands)
  | .dispatch alternatives =>
    match dispatch? alternatives arguments with
    | some callee => engine.call callee arguments
    | none => throw (.defect .operands)

end Call

end Weave
