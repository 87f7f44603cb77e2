import Weave.Core.Sequences

namespace Weave.Core

/-!
# Objects

Functions on the entries of objects.  Most of them keep null and refuse other values.
-/

/-- The fault of a function that was not given an object. -/
def wantsObject (function : String) : Fault :=
  .mismatch (.expects function "an object")

/-- Apply a function to the entries of an object; null is kept. -/
def onEntries (name : String) (function : Entries → Value) : Value → Except Fault Value
  | .null => .ok .null
  | .object _ entries => .ok (function entries)
  | _ => .error (wantsObject name)

/-- The keys of an object as a list. -/
def keysOf (entries : Entries) : Value :=
  .array (entries.map (·.1.toValue))

/-- The keys of an object as texts. -/
def namesOf (entries : Entries) : Value :=
  .array (entries.map fun (key, _) => .text key.shown)

/-- The values of an object as a list. -/
def valuesOf (entries : Entries) : Value :=
  .array (entries.map (·.2))

/-- Each entry as an object of its key, its value and its attributes. -/
def entriesOf (entries : Entries) : Value :=
  .array (entries.map fun (key, value) =>
    .record [(.text "key", key.toValue), (.text "value", value),
      (.text "attributes", .record [])])

mutual

/-- The text of an XML element, or the object of its children without attributes. -/
def collapse : Value → Except Fault Value
  | .list .xml items => do return .array (← collapseAll items)
  | .object .xml entries =>
    match Entries.find? entries (.text textEntry) with
    | some .null | none => do
      let children ← collapseChildren entries
      return if children.isEmpty then .null else .record children
    | some text => .ok text
  | value => .ok value

/-- The items of a list, each collapsed. -/
def collapseAll : List Value → Except Fault (List Value)
  | [] => .ok []
  | item :: rest => do
    let first ← collapse item
    return first :: (← collapseAll rest)

/-- The children of an element, each collapsed; attributes are left out. -/
def collapseChildren : List (Key × Value) → Except Fault (List (Key × Value))
  | [] => .ok []
  | (.missing, _) :: _ => .error (.defect .missingPart)
  | (.text name, value) :: rest => do
    if isAttributeName name then
      collapseChildren rest
    else
      let child ← collapse value
      return (.text name, child) :: (← collapseChildren rest)

end

/-- The values of an object; XML elements are collapsed and repeated ones stand one by one. -/
def valueSet : Value → Except Fault Value
  | .null => .ok .null
  | .object _ entries => do
    let values ← entries.mapM fun (_, value) =>
      match value with
      | .list .xml items => collapseAll items
      | other => do return [← collapse other]
    return .array values.flatten
  | _ => .error (wantsObject "valueSet")

/-- A value; an object loses its mark as an XML element. -/
def plainObject : Value → Value
  | .object _ entries => .record entries
  | value => value

/-- One object merged into another: the keys of the second come last. -/
def mergeWith : Value → Value → Except Fault Value
  | .null, target => .ok (plainObject target)
  | source, .null => .ok (plainObject source)
  | .object _ source, .object _ target =>
    .ok (.record (source.filter (fun entry => (Entries.find? target entry.1).isNone) ++ target))
  | _, _ => .error (.mismatch (.expects "mergeWith" "objects"))

/-- Call a function with an entry and its place. -/
def onEntry (call : Caller) (function : Value) (entry : (Key × Value) × Nat) : Outcome Value :=
  invoke call function (entryArguments entry)

/-- Apply a function to all entries of an object. -/
def pluck (call : Caller) (object mapper : Value) : Outcome Value := do
  match object with
  | .null => return .null
  | .object _ entries =>
    return .array (← Outcome.each (onEntry call mapper) entries.zipIdx)
  | _ => throw (wantsObject "pluck")

/-- The entries for which a condition holds. -/
def keptEntries (call : Caller) (entries : Entries) (condition : Value) : Outcome Value := do
  let kept ← Outcome.keep (fun entry => do return (← onEntry call condition entry).isTruthy)
    entries.zipIdx
  return .record (kept.map (·.1))

/-- Keep the entries of an object for which a condition holds. -/
def filterObject (call : Caller) (object criteria : Value) : Outcome Value := do
  match object, criteria with
  | .null, _ => return .null
  | .object _ entries, .null => return .record entries
  | .object _ entries, criteria => keptEntries call entries criteria
  | _, _ => throw (wantsObject "filterObject")

/-- Keep the items or entries for which a condition holds. -/
def filter (call : Caller) (collection condition : Value) : Outcome Value := do
  match collection, condition with
  | .null, _ => return .array []
  | .object _ entries, .null => return .record entries
  | .object _ entries, condition => keptEntries call entries condition
  | sequence, .null => return .array (← (sequence.items : Except Fault (List Value)))
  | sequence, condition => keepItems (invoke call condition) sequence

/-- The entries in front of the first for which a condition does not hold. -/
def leadingEntries (call : Caller) (condition : Value) :
    List ((Key × Value) × Nat) → Outcome (List (Key × Value))
  | [] => return []
  | entry :: rest => do
    if (← onEntry call condition entry).isTruthy then
      return entry.1 :: (← leadingEntries call condition rest)
    else
      return []

/-- Whether a condition holds for some entry, or for every one, asked until this is known: until the
first `answer`, which is the result if it comes. -/
def holdsUntil (answer : Bool) (call : Caller) (condition : Value) :
    List ((Key × Value) × Nat) → Outcome Bool
  | [] => return !answer
  | entry :: rest => do
    if (← onEntry call condition entry).isTruthy = answer then return answer
    else holdsUntil answer call condition rest

/-- Test the entries of an object, which a null has none of. -/
def testEntries (name : String) (whenNull : Value)
    (test : List ((Key × Value) × Nat) → Outcome Value) (object condition : Value) :
    Outcome Value :=
  match object, condition with
  | .null, _ => return whenNull
  | .object _ _, .null => throw (.mismatch (.expects name "a condition function"))
  | .object _ entries, _ => test entries.zipIdx
  | _, _ => throw (wantsObject name)

/-- The entries of an object in front of the first for which a condition does not hold. -/
def takeWhile (call : Caller) (object condition : Value) : Outcome Value :=
  testEntries "takeWhile" (.record [])
    (fun entries => do return .record (← leadingEntries call condition entries)) object condition

/-- Whether a condition holds for all entries of an object. -/
def everyEntry (call : Caller) (object condition : Value) : Outcome Value :=
  testEntries "everyEntry" (.bool true)
    (fun entries => do return .bool (← holdsUntil false call condition entries)) object condition

/-- Whether a condition holds for some entry of an object. -/
def someEntry (call : Caller) (object condition : Value) : Outcome Value :=
  testEntries "someEntry" (.bool false)
    (fun entries => do return .bool (← holdsUntil true call condition entries)) object condition

end Weave.Core
