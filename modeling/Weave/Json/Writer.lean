import Weave.Json.Inline

namespace Weave.Json

/-!
# Writing JSON

The JSON text of a value, compact or indented.  XML nodes are simplified on the
way: an element without child elements is its text, attributes are dropped, and
an element that is repeated inside an object is written once for each repetition.
-/

/-- How a document is laid out. -/
structure Style where
  indent : Option Nat
  asciiOnly : Bool
  sortKeys : Bool

mutual

/-- A value without XML marks. -/
def simplify : Value → Except Fault Value
  | .object .xml entries => do
    let (children, text) ← simplifyNode entries
    if !children.isEmpty then
      return .record children
    else
      match text with
      | .null => return .text ""
      | text => return text
  | .object .data entries => return .record (← simplifyEntries entries)
  | .list _ items => return .array (← simplifyAll items)
  | value => .ok value

/-- All items with their XML nodes simplified. -/
def simplifyAll : List Value → Except Fault (List Value)
  | [] => .ok []
  | item :: rest => do
    let first ← simplify item
    return first :: (← simplifyAll rest)

def simplifyEntries : List (Key × Value) → Except Fault (List (Key × Value))
  | [] => .ok []
  | (key, value) :: rest => do
    let first ← simplify value
    return (key, first) :: (← simplifyEntries rest)

/-- The children of an XML node without its attributes, and its text. -/
def simplifyNode : List (Key × Value) → Except Fault (List (Key × Value) × Value)
  | [] => .ok ([], .null)
  | (.text name, value) :: rest =>
    if name == textEntry then do
      let text ← simplify value
      let (children, _) ← simplifyNode rest
      return (children, text)
    else if isAttributeName name then simplifyNode rest
    else do
      let first ← simplify value
      let (children, text) ← simplifyNode rest
      return ((.text name, first) :: children, text)
  | (.missing, _) :: _ => .error (.defect .missingPart)

end

def scalarText (style : Style) (value : Value) : Except Fault String :=
  inline ⟨style.asciiOnly, false, false⟩ value

def keyText (style : Style) : Key → String
  | .text name => quote style.asciiOnly name
  | .missing => "null"

def padding (indent level : Nat) : String :=
  String.ofList (List.replicate (indent * level) ' ')

/-- Written parts between two brackets, the brackets standing at a depth. -/
def enclose (style : Style) (level : Nat) (opening closing : String) (parts : List String) :
    String :=
  if parts.isEmpty then opening ++ closing
  else
    match style.indent with
    | none => opening ++ ",".intercalate parts ++ closing
    | some indent =>
      let lines := parts.map (padding indent (level + 1) ++ ·)
      opening ++ "\n" ++ ",\n".intercalate lines ++ "\n" ++ padding indent level ++ closing

def keySeparator (style : Style) : String :=
  if style.indent.isSome then ": " else ":"

def arranged (style : Style) (entries : List (Key × α)) : Except Fault (List (Key × α)) :=
  if style.sortKeys then sortEntries entries else .ok entries

mutual

/-- Write a value at a level of nesting. -/
def writeSimple (style : Style) (level : Nat) : Value → Except Fault String
  | .object _ entries => do
    let parts ← writeEntries style (level + 1) entries
    let ordered ← arranged style parts
    return enclose style level "\x7b" "\x7d" (ordered.map (·.2))
  | .list _ items => do
    return enclose style level "[" "]" (← writeItems style (level + 1) items)
  | value => scalarText style value

def writeItems (style : Style) (level : Nat) : List Value → Except Fault (List String)
  | [] => .ok []
  | item :: rest => do
    let first ← writeSimple style level item
    return first :: (← writeItems style level rest)

/-- Simplified entries at a depth, beside their keys. -/
def writeEntries (style : Style) (level : Nat) :
    List (Key × Value) → Except Fault (List (Key × String))
  | [] => .ok []
  | (key, value) :: rest => do
    let first := keyText style key ++ keySeparator style ++ (← writeSimple style level value)
    return (key, first) :: (← writeEntries style level rest)

end

/-- An entry for each repetition of a repeated element. -/
def repetitions : Key × Value → List (Key × Value)
  | (key, .list .xml items) => items.map fun item => (key, item)
  | entry => [entry]

/-- Write a value that may come from XML. -/
def write (style : Style) : Value → Except Fault String
  | .object _ entries => do
    if entries.isEmpty then
      return "\x7b\x7d"
    else
      let ordered ← arranged style entries
      let simple ← simplifyEntries (ordered.flatMap repetitions)
      let parts ← writeEntries style 1 simple
      return brackets "\x7b" "\x7d" (parts.map (·.2))
  | .list _ items => do
    return enclose style 0 "[" "]" (← writeItems style 1 (← simplifyAll items))
  | value => scalarText style value
where
  brackets (opening closing : String) (parts : List String) : String :=
    match style.indent, parts with
    | some _, [] => opening ++ "\n\n" ++ closing
    | _, _ => enclose style 0 opening closing parts

end Weave.Json
