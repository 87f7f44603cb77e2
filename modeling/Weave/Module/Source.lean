import Weave.Expr.Parser
import Weave.Text.Letter

namespace Weave.Module

/-!
# Modules as scripts

A module is a list of functions.  It is turned into a script that declares a variable
for every function whose body can be read and whose value is an object with all of them.
Functions with one name are gathered under it.
-/

/-! ## Comments and annotations -/

/-- A text without comments between slashes and stars; one that is not closed is no comment. -/
def withoutBlocks : Nat → List Char → List Char
  | 0, text => text
  | fuel + 1, text =>
    match Text.cutAt? "/*".toList text with
    | none => text
    | some (before, opened) =>
      match Text.cutAt? "*/".toList opened with
      | none => text
      | some (_, rest) => before ++ withoutBlocks fuel rest

def withoutRemark (line : List Char) : List Char :=
  match Text.cutAt? "//".toList line with
  | some (before, _) => before
  | none => line

/-- A text without the rest of every line behind two slashes. -/
def withoutRemarks (text : List Char) : List Char :=
  Text.joinWith ['\n'] ((Text.splitOn ['\n'] text).map withoutRemark)

def takeLine (text : List Char) : List Char × List Char :=
  match Text.cutAt? ['\n'] text with
  | some (line, rest) => (line ++ ['\n'], rest)
  | none => (text, [])

/--
A text, from the start of a line on, without the lines that start with an at sign.
The blank lines in front of such a line go with it.
-/
def withoutAnnotations : Nat → List Char → List Char
  | 0, text => text
  | fuel + 1, text =>
    match Text.trimStart text with
    | [] => text
    | '@' :: rest =>
      match rest.dropWhile (· != '\n') with
      | [] => []
      | _ :: behind => '\n' :: withoutAnnotations fuel behind
    | _ =>
      let (line, rest) := takeLine text
      if rest.isEmpty then line else line ++ withoutAnnotations fuel rest

/-- The text of a module without comments and annotations. -/
def cleaned (source : List Char) : List Char :=
  let plain := withoutRemarks (withoutBlocks (source.length + 1) source)
  withoutAnnotations (plain.length + 1) plain

/-! ## Functions -/

/-- A function as it is written in a module. -/
structure Written where
  name : List Char
  parameters : List Char
  body : List Char

def isNameCharacter (character : Char) : Bool :=
  character.isAlphanum || character == '_'

def afterKeyword? (text : List Char) : Option (List Char) :=
  match Text.after? "fun".toList text with
  | some (blank :: rest) => if Text.isBlank blank then some (Text.trimStart rest) else none
  | _ => none

/-- What follows the equals sign behind the parameters and an optional type. -/
def afterSignature? (text : List Char) : Option (List Char) :=
  match Text.trimStart text with
  | '=' :: rest => some rest
  | ':' :: type =>
    match type with
    | '=' :: _ => none
    | type =>
      match type.dropWhile (· != '=') with
      | '=' :: rest => some rest
      | _ => none
  | _ => none

/-- The parameters up to the first parenthesis of their line behind which a body follows. -/
def parametersFrom : List Char → List Char → Option (List Char × List Char)
  | _, [] => none
  | passed, character :: rest =>
    if character == '\n' then none
    else
      let body := if character == ')' then afterSignature? rest else none
      match body with
      | some body => some (passed.reverse, body)
      | none => parametersFrom (character :: passed) rest

/-- A text up to the next line that starts a function, and the rest; `isStart` tells whether the
text stands at the start of a line. -/
def bodyFrom : Bool → List Char → List Char → List Char × List Char
  | _, passed, [] => (passed.reverse, [])
  | isStart, passed, character :: rest =>
    if isStart && (afterKeyword? (character :: rest)).isSome then
      (passed.reverse, character :: rest)
    else bodyFrom (character == '\n') (character :: passed) rest

/-- The function that a line starts, and the rest behind its body. -/
def function? (text : List Char) : Option (Written × List Char) := do
  let named ← afterKeyword? text
  let name := named.takeWhile isNameCharacter
  if name.isEmpty then
    none
  let behind := named.drop name.length
  let rest :=
    match behind with
    | '<' :: inner =>
      match inner.dropWhile (· != '>') with
      | '>' :: rest => rest
      | _ => behind
    | _ => behind
  match Text.trimStart rest with
  | '(' :: inner =>
    let (parameters, written) ← parametersFrom [] inner
    let blanks := written.takeWhile Text.isBlank
    let (body, rest) :=
      bodyFrom (blanks.getLast? == some '\n') [] (written.drop blanks.length)
    return (⟨name, parameters, Text.trim body⟩, rest)
  | _ => none

def functionsFrom : Nat → List Char → List Written
  | 0, _ => []
  | fuel + 1, text =>
    match function? text with
    | some (function, rest) => function :: functionsFrom fuel rest
    | none =>
      match Text.cutAt? ['\n'] text with
      | some (_, rest) => functionsFrom fuel rest
      | none => []

/-! ## Bodies and parameters -/

def blockInside? (body : List Char) : Option (List Char) :=
  match Text.trim body with
  | '\x7b' :: rest =>
    if Text.endsWith ('\x7b' :: rest) ['\x7d'] then some (Text.trim rest.dropLast) else none
  | _ => none

/-- A text on one line: its lines trimmed, with a blank between them. -/
def onOneLine (text : List Char) : List Char :=
  Text.joinWith [' '] (((Text.lines text).map Text.trim).filter (!·.isEmpty))

def plainBody (body : List Char) : List Char :=
  if body.getLast? == some ';' then onOneLine (Text.trim body.dropLast) else onOneLine body

/--
A body on one line.  A body that starts like a block must be one, without declarations
and functions of its own; otherwise nothing is left of it.
-/
def simplifyBody (body : List Char) : List Char :=
  let body := Text.trim body
  match Text.after? "do".toList body with
  | none => plainBody body
  | some rest =>
    match blockInside? rest with
    | none => []
    | some inner =>
      if Text.contains inner "---".toList || Text.contains inner "\nfun".toList then []
      else plainBody inner

/-- Cut a text at the commas outside parentheses; the piece being read is held in reverse. -/
def piecesFrom : Nat → List Char → List Char → List (List Char)
  | _, piece, [] => [piece.reverse]
  | depth, piece, character :: rest =>
    if character == ',' && depth == 0 then piece.reverse :: piecesFrom depth [] rest
    else
      let deeper :=
        if character == '(' then depth + 1 else if character == ')' then depth - 1 else depth
      piecesFrom deeper (character :: piece) rest

def isAnnotationPart (character : Char) : Bool :=
  Text.isWordCharacter character || character == ':' || character == '<' || character == '>'

/-- A text without at signs and the names behind them. -/
def withoutMarks : Nat → List Char → List Char
  | 0, text => text
  | fuel + 1, text =>
    match Text.cutAt? ['@'] text with
    | none => text
    | some (before, rest) =>
      let behind := rest.dropWhile isAnnotationPart
      if behind.length == rest.length then before ++ '@' :: withoutMarks fuel rest
      else before ++ withoutMarks fuel behind

def parameterOf (piece : List Char) : String × Option String :=
  match Text.cutAt? [':'] piece with
  | none => (String.ofList piece, none)
  | some (name, type) =>
    let type := Text.trim type
    (String.ofList (Text.trim name), if type.isEmpty then none else some (String.ofList type))

/-- The parameters with their types. -/
def parametersOf (text : List Char) : List (String × Option String) :=
  let pieces := (piecesFrom 0 [] text).map fun piece =>
    Text.trim (withoutMarks (piece.length + 1) (Text.trim piece))
  (pieces.filter (!·.isEmpty)).map parameterOf

/-! ## The script -/

/-- A function whose body can be read. -/
structure Overload where
  parameters : List (String × Option String)
  body : String

/-- The function as it goes into the script; functions with marked parameters and those whose
bodies cannot be read are left out. -/
def overload? (function : Written) : Except ParseFault (Option Overload) :=
  let body := simplifyBody function.body
  if body.isEmpty || function.parameters.contains '@' then .ok none
  else
    match Expr.parse body with
    | .ok _ => .ok (some ⟨parametersOf function.parameters, String.ofList body⟩)
    | .error .unreadableEscape => .error .unreadableEscape
    | .error _ => .ok none

/-- Put a function under its name, behind those that are there. -/
def addOverload (name : String) (overload : Overload) :
    List (String × List Overload) → List (String × List Overload)
  | [] => [(name, [overload])]
  | (present, overloads) :: rest =>
    if present = name then (present, overloads ++ [overload]) :: rest
    else (present, overloads) :: addOverload name overload rest

def gathered (functions : List Written) : Except ParseFault (List (String × List Overload)) :=
  functions.foldlM
    (fun groups function => do
      match ← overload? function with
      | some overload => return addOverload (String.ofList function.name) overload groups
      | none => return groups)
    []

def variableName (name : String) (index : Nat) : String :=
  name ++ "__overload_" ++ toString index

def variableLine (name : String) (index : Nat) (overload : Overload) : String :=
  "var " ++ variableName name index ++ " = (" ++
    ", ".intercalate (overload.parameters.map (·.1)) ++ ") -> " ++ overload.body

def typeText : Option String → String
  | some type => Text.Escape.quote type
  | none => "null"

def entryText (name : String) (index : Nat) (overload : Overload) : String :=
  "\x7b function: " ++ variableName name index ++ ", paramTypes: [" ++
    ", ".intercalate (overload.parameters.map fun parameter => typeText parameter.2) ++ "] \x7d"

def headerLines (group : String × List Overload) : List String :=
  let numbered := group.2.zipIdx
  let entries := numbered.map fun (overload, index) => entryText group.1 index overload
  numbered.map (fun (overload, index) => variableLine group.1 index overload) ++
    ["var " ++ group.1 ++ "__overloads = [" ++ ", ".intercalate entries ++ "]"]

/-- The script that exports the functions of a module. -/
def scriptOf (groups : List (String × List Overload)) : String :=
  let entries := groups.map fun (name, _) => name ++ ": " ++ name ++ "__overloads"
  "\n".intercalate ("%dw 2.0" :: groups.flatMap headerLines) ++ "\n---\n" ++
    "\x7b " ++ ", ".intercalate entries ++ " \x7d"

/-- The script of a module; none if no function of it can be read. -/
def toScript? (source : String) : Except ParseFault (Option String) := do
  let text := cleaned source.toList
  let groups ← gathered (functionsFrom (text.length + 1) text)
  return if groups.isEmpty then none else some (scriptOf groups)

end Weave.Module
