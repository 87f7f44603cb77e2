import Weave.Expr.Parser
import Weave.Script
import Weave.Text.TopLevel
import Weave.TypeSpec.Parser

namespace Weave

/-!
# Reading scripts

The first three hyphens in a row separate the header from the body; a script
without them is a body.  The header is read line by line.
-/

/-! ## Parameters of declared functions -/

/-- A parameter: a name, a type after a colon, and a default after an equals sign. -/
def Parameter.read (segment : List Char) : Except ParseFault (Parameter Expr) := do
  let (declared, fallback) ←
    match Text.splitTopLevel '=' (some 1) segment with
    | [declared, written] =>
      let source := Text.trim written
      if source.isEmpty then
        throw .emptyDefault
      else
        pure (Text.trim declared, some (← Expr.parse source))
    | _ => pure (segment, none)
  let (name, type?) ←
    match Text.cutAt? [':'] declared with
    | some (name, written) =>
      let source := Text.trim written
      if source.isEmpty then
        pure (name, none)
      else
        pure (name, some (← TypeSpec.parse source))
    | none => pure (declared, none)
  let name := Text.trim name
  if name.isEmpty then
    throw .emptyParameterName
  else
    return ⟨String.ofList name, fallback, type?⟩

/-- The parameters between commas; empty places are skipped. -/
def Parameter.readAll (source : List Char) : Except ParseFault (List (Parameter Expr)) :=
  let segments := (Text.splitTopLevel ',' none (Text.trim source)).map Text.trim
  (segments.filter fun segment => !segment.isEmpty).mapM Parameter.read

/-! ## Declared functions -/

/-- What may stand behind the parameters: nothing, or a colon and a type. -/
def returnPart? (text : List Char) : Option (Option (List Char)) :=
  match Text.trimStart text with
  | [] => some none
  | ':' :: written => if written.isEmpty then none else some (some (Text.trimStart written))
  | _ => none

/--
The parameters up to a closing parenthesis and the type behind it.  The last
parenthesis behind which the rest can be read is taken.
-/
def closeSignature? : List Char → Option (List Char × Option (List Char))
  | [] => none
  | character :: rest =>
    match closeSignature? rest with
    | some (parameters, returns) => some (character :: parameters, returns)
    | none =>
      if character = ')' then (returnPart? rest).map fun returns => ([], returns) else none

def skipTypeVariables : List Char → List Char
  | '<' :: rest =>
    match rest.dropWhile (· ≠ '>') with
    | '>' :: left => left
    | _ => '<' :: rest
  | text => text

/-- The name, the parameters and the return type of a signature. -/
def signature? (text : List Char) : Option (String × List Char × Option (List Char)) :=
  match text with
  | [] => none
  | character :: rest =>
    if Token.isWordStart character then
      let name := character :: rest.takeWhile Token.isWordPart
      match Text.trimStart (skipTypeVariables (rest.dropWhile Token.isWordPart)) with
      | '(' :: inner =>
        (closeSignature? inner).map fun (parameters, returns) =>
          (String.ofList name, parameters, returns)
      | _ => none
    else none

/-- Read the declaration of a function; the line is that of the header. -/
def FunctionDecl.read (source : List Char) (line : Nat) : Except ParseFault FunctionDecl := do
  match Text.cutAt? ['='] source with
  | none => throw (.invalidFunction line)
  | some (signature, written) =>
    let body := Text.trim written
    if body.isEmpty then
      throw (.missingFunctionBody line)
    else
      match signature? (Text.trim signature) with
      | none => throw (.invalidSignature line)
      | some (name, parameters, returns) =>
        let parameters ← Parameter.readAll parameters
        let body ← Expr.parse body
        let returns ← returns.mapM TypeSpec.parse
        return ⟨name, parameters, body, returns⟩

/-- Read the declaration of a variable; the line is that of the header. -/
def VariableDecl.read (source : List Char) (line : Nat) : Except ParseFault VariableDecl := do
  match Text.cutAt? ['='] source with
  | none => throw (.missingAssignment line)
  | some (declared, written) =>
    let name := Text.trim declared
    if name.isEmpty then
      throw (.emptyVariableName line)
    else
      return ⟨String.ofList name, ← Expr.parse (Text.trim written)⟩

/-! ## Headers -/

/-- A line of the header. -/
inductive Header.Line where
  | blank
  | openComment
  | version (text : String)
  | output (text : Option String)
  | library (directive : String)
  | variable (declaration : VariableDecl)
  | function (declaration : FunctionDecl)

def directive? (keyword : String) (line : List Char) : Option (List Char) :=
  (Text.after? keyword.toList line).map Text.trim

def versionOf (line : List Char) (number : Nat) : Except ParseFault Header.Line :=
  match Text.words line with
  | _ :: version :: _ => .ok (.version (String.ofList version))
  | _ => .error (.invalidVersion number)

def Header.Line.read (line : List Char) (number : Nat) : Except ParseFault Header.Line := do
  if Text.startsWith line ['/', '*'] then
    return if Text.endsWith line ['*', '/'] then .blank else .openComment
  else if Text.startsWith line ['/', '/'] || line.isEmpty then
    return .blank
  else if Text.startsWith line "%dw".toList then
    versionOf line number
  else if let some written := directive? "output" line then
    return .output (if written.isEmpty then none else some (String.ofList written))
  else if let some written := directive? "import " line then
    return .library (String.ofList written)
  else if Text.startsWith line "type ".toList then
    return .blank
  else if let some written := directive? "var " line then
    return .variable (← VariableDecl.read written number)
  else if let some written := directive? "fun " line then
    return .function (← FunctionDecl.read written number)
  else
    throw (.unsupportedDirective (String.ofList line) number)

/-- What the lines of a header say, with the comments that span lines left out. -/
def Header.readLines : Bool → Nat → List (List Char) → Except ParseFault (List Header.Line)
  | _, _, [] => .ok []
  | true, number, line :: rest =>
    readLines (!Text.contains line ['*', '/']) (number + 1) rest
  | false, number, line :: rest => do
    let read ← Header.Line.read (Text.trim line) number
    let others ← readLines (read matches .openComment) (number + 1) rest
    return read :: others

/-- A header being read: the version is not known until its line. -/
structure Header.Draft where
  version : Option String
  header : Header

/-- Add what one line says; of several versions or outputs the last one counts. -/
def Header.Draft.add (draft : Header.Draft) : Header.Line → Header.Draft
  | .blank => draft
  | .openComment => draft
  | .version text => { draft with version := some text }
  | .output text => { draft with header := { draft.header with output := text } }
  | .library directive =>
    let imports := draft.header.imports ++ [directive]
    { draft with header := { draft.header with imports := imports } }
  | .variable declaration =>
    let bindings := draft.header.bindings ++ [declaration]
    { draft with header := { draft.header with bindings := bindings } }
  | .function declaration =>
    let functions := draft.header.functions ++ [declaration]
    { draft with header := { draft.header with functions := functions } }

/-- Read a header. -/
def Header.parse (source : List Char) : Except ParseFault Header := do
  let lines ← Header.readLines false 1 (Text.lines source)
  let draft := lines.foldl Header.Draft.add ⟨none, Header.plain⟩
  match draft.version with
  | some version => return { draft.header with version := version }
  | none => throw .missingVersion

/-! ## Scripts -/

def bodyMark : List Char :=
  ['-', '-', '-']

/-- Read a script. -/
def Script.parse (source : List Char) : Except ParseFault Script := do
  let trimmed := Text.trim source
  match Text.cutAt? bodyMark trimmed with
  | none =>
    if trimmed.isEmpty then
      throw .emptyScript
    else
      return ⟨Header.plain, ← Expr.parse trimmed⟩
  | some (header, body) =>
    let header ← Header.parse (Text.trim header)
    return ⟨header, ← Expr.parse (Text.trim body)⟩

end Weave
