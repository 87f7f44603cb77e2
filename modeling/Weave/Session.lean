import Weave.Eval.Step
import Weave.Output
import Weave.Script.Parser

namespace Weave

/-!
# Running scripts

A run reads a script, sets up the functions and variables of its header, evaluates its
body and writes the result.  A session keeps the headers of earlier runs, because
functions that their results hold may still be called.
-/

/-- The headers of all runs so far. -/
structure Session where
  frames : List Frame

/-- A script to run and what it is given. -/
structure Job where
  source : String
  payload : Value
  bindings : Bindings
  /-- Whether the result is written as the header asks. -/
  isRendered : Bool

/-- How expressions are evaluated. -/
abbrev Evaluator := Setting → Context → Expr → Outcome Value

namespace Session

/-- The session in which nothing has run. -/
def fresh : Session :=
  ⟨[]⟩

/-- What evaluations see while a header has the given variables. -/
def setting (session : Session) (ambient : Ambient) (frame : Frame) : Setting :=
  ⟨ambient, session.frames ++ [frame]⟩

/-- Declare a function of the header with a number; functions of one name are kept together. -/
def declareFunction (index : Nat) (bindings : Bindings) (declaration : FunctionDecl) : Bindings :=
  match bindings.find? declaration.name with
  | some (.function (.overloaded alternatives)) =>
    bindings.set declaration.name
      (.function (.overloaded (alternatives ++ [(index, declaration)])))
  | some (.function (.declared frame first)) =>
    bindings.set declaration.name
      (.function (.overloaded [(frame, first), (index, declaration)]))
  | _ => bindings.set declaration.name (.function (.declared index declaration))

/-- Evaluate the variables of a header one after the other; each sees those in front of it. -/
def declareVariables (session : Session) (ambient : Ambient) (payload : Value)
    (bindings : Bindings) (declarations : List VariableDecl)
    (evaluate : Evaluator := Expr.eval) :
    Outcome Bindings :=
  match declarations with
  | [] => return bindings
  | declaration :: rest => do
    let setting := session.setting ambient ⟨payload, bindings⟩
    let value ← evaluate setting ⟨payload, bindings, 0⟩ declaration.value
    session.declareVariables ambient payload (bindings.set declaration.name value) rest evaluate

/-- The number of the line that ends the header; zero if there is no header. -/
def bodyLineOffset (source : String) : Nat :=
  match (Text.lines source.toList).findIdx? fun line => Text.trim line == bodyMark with
  | some index => index + 1
  | none => 0

/-- A fault with the source it is in. -/
def reported (source : String) : Fault → Fault
  | .refused fault none => .refused fault (some source)
  | fault => fault

/-- Read a script; a fault is reported with the script. -/
def parse (source : String) : Except Fault Script :=
  match Script.parse source.toList with
  | .ok script => .ok script
  | .error fault => .error (.malformed fault (some source))

/-- Run a script that was read, in which imported functions are known. -/
def runScript (session : Session) (ambient : Ambient) (imported : Bindings) (script : Script)
    (job : Job) (evaluate : Evaluator := Expr.eval) :
    Outcome (Value × Session) := do
  let known := job.bindings.setAll imported
  let withFunctions :=
    script.header.functions.foldl (declareFunction session.frames.length) known
  let bindings ←
    session.declareVariables ambient job.payload withFunctions script.header.bindings evaluate
  let frame : Frame := ⟨job.payload, bindings⟩
  let context : Context := ⟨job.payload, bindings, bodyLineOffset job.source⟩
  let result ← tryCatch (evaluate (session.setting ambient frame) context script.body) fun fault =>
    throw (reported job.source fault)
  let finished ←
    if job.isRendered then do
      let directive ← (OutputDirective.parse script.header.output : Except Fault _)
      (OutputDirective.finish directive result : Except Fault Value)
    else (result.unmarked : Except Fault Value)
  return (finished, ⟨session.frames ++ [frame]⟩)

/-- Read and run a script that imports nothing. -/
def runAlone (session : Session) (ambient : Ambient) (job : Job)
    (evaluate : Evaluator := Expr.eval) :
    Outcome (Value × Session) := do
  let script ← (parse job.source : Except Fault Script)
  session.runScript ambient [] script job evaluate

end Session

end Weave
