import Weave.Fault
import Weave.Value

namespace Weave

/-!
# Values at the boundary

Values that come in are made of lists and objects only, and XML elements that go out
lose their marks: an element with text is its text.
-/

namespace Value

mutual

/-- A value with lists in the place of tuples. -/
def normalise : Value → Value
  | .list origin items => .list origin (normaliseAll items)
  | .tuple items => .array (normaliseAll items)
  | .object origin entries => .object origin (normaliseEntries entries)
  | value => value

/-- Items with lists in the place of tuples. -/
def normaliseAll : List Value → List Value
  | [] => []
  | item :: rest => normalise item :: normaliseAll rest

/-- Entries with lists in the place of tuples. -/
def normaliseEntries : List (Key × Value) → List (Key × Value)
  | [] => []
  | (key, value) :: rest => (key, normalise value) :: normaliseEntries rest

end

/-- The text of an element. -/
def textOf? (entries : Entries) : Option Value :=
  match Entries.find? entries (.text textEntry) with
  | some .null | none => none
  | some found => some found

/-- Whether entries hold nothing but text and attributes; a missing key cannot be asked. -/
def isTextOnly : List (Key × Value) → Except Fault Bool
  | [] => .ok true
  | (.missing, _) :: _ => .error (.defect .missingPart)
  | (.text name, _) :: rest => do
    let others ← isTextOnly rest
    return (name == textEntry || isAttributeName name) && others

mutual

/-- A value without XML marks; an element that has text is its text. -/
def unmarked : Value → Except Fault Value
  | .list _ items => do return .array (← unmarkedAll items)
  | .object .xml entries => do
    let plain ← unmarkedEntries entries
    return (textOf? plain).getD (.record plain)
  | .object .data entries => do
    let plain ← unmarkedEntries entries
    match textOf? plain with
    | some found => return if ← isTextOnly plain then found else .record plain
    | none => return .record plain
  | value => .ok value

/-- Items without XML marks. -/
def unmarkedAll : List Value → Except Fault (List Value)
  | [] => .ok []
  | item :: rest => do
    let first ← unmarked item
    return first :: (← unmarkedAll rest)

/-- Entries without XML marks. -/
def unmarkedEntries : List (Key × Value) → Except Fault (List (Key × Value))
  | [] => .ok []
  | (key, value) :: rest => do
    let first ← unmarked value
    return (key, first) :: (← unmarkedEntries rest)

end

end Value

end Weave
