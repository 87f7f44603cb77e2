import Weave.Module.Source
import Weave.Session

namespace Weave

/-!
# Modules

A library holds the sources of modules under their paths.  Loading a module runs its
script and keeps the functions among the values of the resulting object.  A module that
cannot be run exports nothing.
-/

/-- The sources of modules under their paths. -/
abbrev Library := List (String × String)

namespace Module

/-- The path of a module: its name with slashes between the parts.  Between the first and the last
part, parts that lead nowhere are left out. -/
def pathOf (name : String) : String :=
  let segments := Text.splitString "/" (Text.replaced "::" "/" name)
  let kept := segments.zipIdx.filter fun (segment, index) =>
    index == 0 || index + 1 == segments.length || (!segment.isEmpty && segment != ".")
  "/".intercalate (kept.map (·.1))

/-- The types of the parameters that an entry of a module gives. -/
def paramTypes : Option Value → Option (List (Option String))
  | some (.list _ items) =>
    some (items.map fun item =>
      match item with
      | .text type => if type.isEmpty then none else some type
      | _ => none)
  | _ => none

/-- The function that an item of a list of alternatives gives, with the types of its parameters. -/
def alternative? : Value → Option (Option (List (Option String)) × Function)
  | .object _ entries =>
    match Entries.find? entries (.text "function") with
    | some (.function callee) =>
      some (paramTypes (Entries.find? entries (.text "paramTypes")), callee)
    | _ => none
  | .function callee => some (none, callee)
  | _ => none

/-- The function that a value exports. -/
def export? : Value → Option Function
  | .function callee => some callee
  | .list _ items =>
    match items.filterMap alternative? with
    | [] => none
    | [(none, callee)] => some callee
    | alternatives => some (.dispatch alternatives)
  | _ => none

/-- The functions among the values of an object, under their keys. -/
def exportsOf : Value → Bindings
  | .object _ entries =>
    entries.filterMap fun (key, value) =>
      (export? value).map fun callee => (key.shown, .function callee)
  | _ => []

/-- The functions of the core by name. -/
def coreVariables : Bindings :=
  Builtin.core.map fun builtin => (builtin.name, .function (.builtin builtin))

/-- Run a source as a module; one that cannot be run exports nothing. -/
def runSource (session : Session) (ambient : Ambient) (source : String)
    (evaluate : Evaluator := Expr.eval) :
    Outcome (Bindings × Session) :=
  let job : Job := ⟨source, .record [], coreVariables, true⟩
  tryCatch
    (do
      let (result, after) ← session.runAlone ambient job evaluate
      return (exportsOf result, after))
    fun _ => return ([], session)

/-- Load a module; one that the library does not hold exports nothing. -/
def load (library : Library) (session : Session) (ambient : Ambient) (name : String)
    (evaluate : Evaluator := Expr.eval) :
    Outcome (Bindings × Session) :=
  match library.lookup (pathOf name) with
  | none => return ([], session)
  | some stored =>
    let source := String.ofList (Text.withLineFeeds stored.toList)
    match toScript? source with
    | .error fault => throw (.malformed fault none)
    | .ok script => runSource session ambient (script.getD source) evaluate

/-- The built-in functions that modules of some names export as well. -/
def builtinExports (name : String) : List Builtin :=
  if name == "dw::core::Strings" then
    [.contains, .endsWith, .startsWith, .joinBy, .splitBy, .lower, .upper, .trim, .sizeOf]
  else if name == "dw::core::Objects" then
    [.entrySet, .nameSet, .keySet, .valueSet, .mergeWith, .divideBy, .takeWhile, .everyEntry,
      .someEntry]
  else []

/-- All functions that a module exports; its own go before built-in ones. -/
def exports (library : Library) (session : Session) (ambient : Ambient) (name : String)
    (evaluate : Evaluator := Expr.eval) :
    Outcome (Bindings × Session) := do
  let (own, session) ← load library session ambient name evaluate
  let all := (builtinExports name).foldl
    (fun exports builtin => exports.setNew builtin.name (.function (.builtin builtin))) own
  return (all, session)

def importedName (entry : List Char) : List Char × List Char :=
  match Text.cutAt? " as ".toList entry with
  | some (name, given) => (Text.trim name, Text.trim given)
  | none => (entry, entry)

/-- The functions that the names of an import ask for, under the names it gives. -/
def selected (names : List Char) (exports : Bindings) : Bindings :=
  if Text.trim names == ['*'] then exports
  else
    let entries := ((Text.splitOn [','] (Text.trim names)).map Text.trim).filter (!·.isEmpty)
    entries.filterMap fun entry =>
      let (name, given) := importedName entry
      (exports.find? (String.ofList name)).map fun value => (String.ofList given, value)

/-- The functions of one import; an import without a module imports nothing. -/
def importOne (library : Library) (ambient : Ambient) (state : Bindings × Session)
    (directive : String) (evaluate : Evaluator := Expr.eval) :
    Outcome (Bindings × Session) := do
  match Text.cutAt? " from ".toList directive.toList with
  | none => return state
  | some (names, name) =>
    let (found, session) ←
      exports library state.2 ambient (String.ofList (Text.trim name)) evaluate
    return (state.1.setAll (selected names found), session)

/-- The functions of all imports, from the first to the last. -/
def importAll (library : Library) (ambient : Ambient) (state : Bindings × Session)
    (directives : List String) (evaluate : Evaluator := Expr.eval) :
    Outcome (Bindings × Session) :=
  match directives with
  | [] => return state
  | directive :: rest => do
    importAll library ambient (← importOne library ambient state directive evaluate) rest evaluate

end Module

/-- A job as it is handed in: the payload may have to be read in a format first. -/
structure Request where
  job : Job
  format : Option String
  options : Options

namespace Session

/-- The payload, read in its format. -/
def payloadOf (request : Request) : Except Fault Value :=
  match request.format with
  | none => .ok request.job.payload
  | some name =>
    match Format.readNamed name request.options request.job.payload with
    | .ok value => .ok value
    | .error fault => .error (.refused (.format fault) none)

/-- Run the script of a request with an evaluator; without a library nothing is imported. -/
def runUsing (evaluate : Evaluator) (session : Session) (ambient : Ambient)
    (library : Option Library) (request : Request) :
    Outcome (Value × Session) := do
  let payload ← (payloadOf request : Except Fault Value)
  let job : Job :=
    { request.job with
      payload := payload.normalise
      bindings := request.job.bindings.map fun (name, value) => (name, value.normalise) }
  let script ← (parse job.source : Except Fault Script)
  let (imported, session) ←
    match library with
    | some library =>
      Module.importAll library ambient ([], session) script.header.imports evaluate
    | none => pure ([], session)
  session.runScript ambient imported script job evaluate

/-- Run the script of a request; expressions are evaluated as the language does. -/
def run (session : Session) (ambient : Ambient) (library : Option Library) (request : Request) :
    Outcome (Value × Session) :=
  session.runUsing Expr.eval ambient library request

end Session

end Weave
