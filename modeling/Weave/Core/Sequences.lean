import Weave.Outcome
import Weave.Value.Convert
import Weave.Value.Sorting

namespace Weave

/-!
# Sequences

Functions that apply other functions to the items of sequences.  How a function is
called is a parameter; a function with fewer parameters than there are candidates for
its arguments gets the first ones.
-/

/-- How functions are called. -/
abbrev Caller := Function → List Value → Outcome Value

/-- How many parameters a function declares; none if it takes what it is given. -/
def Function.parameterCount? : Function → Option Nat
  | .lambda parameters _ _ _ => some parameters.length
  | .implicit _ _ _ usesSecond => some (if usesSecond then 2 else 1)
  | .declared _ declaration => some declaration.parameters.length
  | .builtin _ | .plus .. | .overloaded _ | .dispatch _ => none

namespace Core

/-- Call a value with as many candidates as it has parameters. -/
def invoke (call : Caller) (function : Value) (candidates : List Value) : Outcome Value :=
  match function with
  | .function callee =>
    call callee
      (match callee.parameterCount? with
        | some count => candidates.take count
        | none => candidates)
  | _ => .fault (.defect .operands)

/-- Call a function; a value that is no function is its own result. -/
def invokeOrKeep (call : Caller) (function : Value) (candidates : List Value) : Outcome Value :=
  if function.isFunction then invoke call function candidates else .value function

/-- The arguments for an item and its place. -/
def numbered (item : Value × Nat) : List Value :=
  [item.1, .int item.2]

/-- The arguments for an entry and its place. -/
def entryArguments (entry : (Key × Value) × Nat) : List Value :=
  [entry.1.2, entry.1.1.toValue, .int entry.2]

/-- Apply a function to all items of a sequence. -/
def mapItems (call : Caller) (sequence function : Value) : Outcome Value := do
  let items ← sequence.items
  return .array (← Outcome.each (fun item => invokeOrKeep call function (numbered item))
    items.zipIdx)

/-- Keep the items of a sequence about which asking gives something true. -/
def keepItems (ask : List Value → Outcome Value) (sequence : Value) : Outcome Value := do
  let items ← sequence.items
  let kept ← Outcome.keep (fun item => do return (← ask (numbered item)).isTruthy) items.zipIdx
  return .array (kept.map (·.1))

/-- Keep the items for which a condition holds. -/
def filterItems (call : Caller) (sequence function : Value) : Outcome Value :=
  keepItems (invokeOrKeep call function) sequence

/-- Ask about all items of a sequence and put the items of the answers one after the other. -/
def spreadItems (ask : List Value → Outcome Value) (sequence : Value) : Outcome Value := do
  let items ← sequence.items
  let parts ← Outcome.each
    (fun item => do
      let part ← ask (numbered item)
      (part.items : Except Fault (List Value)))
    items.zipIdx
  return .array parts.flatten

/-- Apply a function and put the items of the results one after the other. -/
def flatMapItems (call : Caller) (sequence function : Value) : Outcome Value :=
  spreadItems (invokeOrKeep call function) sequence

/-- Keep the first item under each mark. -/
def distinctFrom (mark : Value × Nat → Outcome Value) :
    List Value → List (Value × Nat) → Outcome (List Value)
  | _, [] => return []
  | seen, item :: rest => do
    let found ← (← mark item).marker
    if seen.contains found then distinctFrom mark seen rest
    else return item.1 :: (← distinctFrom mark (seen ++ [found]) rest)

/-- Keep the first of all items with equal answers, or all items if there is no function. -/
def firstItems (ask : List Value → Outcome Value) (sequence function : Value) : Outcome Value := do
  let items ← sequence.items
  match function with
  | .null => return .array items
  | _ => return .array (← distinctFrom (fun item => ask (numbered item)) [] items.zipIdx)

/-- Keep the first of all items with equal results. -/
def distinctItems (call : Caller) (sequence function : Value) : Outcome Value :=
  firstItems (invokeOrKeep call function) sequence function

/-- One step of a reduction: a function of one parameter sees the item only. -/
def reduceStep (call : Caller) (function item accumulator : Value) : Outcome Value :=
  match function with
  | .function callee =>
    match callee.parameterCount? with
    | some (_ + 2) => call callee [item, accumulator]
    | _ => call callee [item]
  | _ => .fault (.defect .operands)

/-- Reduce items from a value on. -/
def reduceFrom (call : Caller) (function : Value) : Value → List Value → Outcome Value
  | accumulator, [] => return accumulator
  | accumulator, item :: rest => do
    reduceFrom call function (← reduceStep call function item accumulator) rest

/-- Reduce the items of a sequence; the first item is given to the function alone. -/
def reduceItems (call : Caller) (sequence function : Value) : Outcome Value := do
  match ← (sequence.items : Except Fault (List Value)) with
  | [] => return .null
  | item :: rest => do
    reduceFrom call function (← invoke call function [item]) rest

/-- Keep the first of all items with equal results, unless the sequence is null. -/
def distinctBy (call : Caller) (sequence criteria : Value) : Outcome Value :=
  match sequence with
  | .null => return .null
  | sequence => firstItems (invoke call criteria) sequence criteria

/-- The items of a sequence with lists among them opened. -/
def flatten : Value → Except Fault Value
  | .null => .ok .null
  | sequence => do
    let items ← sequence.items
    return .array (items.flatMap fun item =>
      match item with
      | .list _ inner | .tuple inner => inner
      | other => [other])

/-- Apply a function to all items and put the items of the results one after the other. -/
def flatMap (call : Caller) (sequence mapper : Value) : Outcome Value :=
  match sequence with
  | .null => return .null
  | sequence => spreadItems (invoke call mapper) sequence

/-- The best of a value and the items behind it. -/
def extremeFrom (comparison : Comparison) : Value → List Value → Except Fault Value
  | best, [] => .ok best
  | best, item :: rest => do
    extremeFrom comparison (if ← item.compare comparison best then item else best) rest

/-- The least or the greatest member of a value. -/
def extreme (comparison : Comparison) : Value → Except Fault Value
  | .null => .ok .null
  | values => do
    match ← values.members with
    | [] => return .null
    | first :: rest => extremeFrom comparison first rest

/-- The item whose result is extreme; of equal results the first. -/
def extremeByFrom (key : Value × Nat → Outcome Value) (comparison : Comparison) :
    Value → Value → List (Value × Nat) → Outcome Value
  | best, _, [] => return best
  | best, bestKey, item :: rest => do
    let found ← key item
    if ← (found.compare comparison bestKey : Except Fault Bool) then
      extremeByFrom key comparison item.1 found rest
    else
      extremeByFrom key comparison best bestKey rest

/-- The item with the least or the greatest result. -/
def extremeBy (call : Caller) (comparison : Comparison) (sequence criteria : Value) :
    Outcome Value := do
  match sequence with
  | .null => return .null
  | sequence =>
    let key (item : Value × Nat) : Outcome Value := invoke call criteria (numbered item)
    match (← (sequence.items : Except Fault (List Value))).zipIdx with
    | [] => return .null
    | first :: rest => extremeByFrom key comparison first.1 (← key first) rest

/-- Add a value to its group, or start the group. -/
def intoGroup (key : String) (value : Value) (groups : List (String × List Value)) :
    List (String × List Value) :=
  match groups with
  | [] => [(key, [value])]
  | (present, members) :: rest =>
    if present = key then (present, members ++ [value]) :: rest
    else (present, members) :: intoGroup key value rest

/-- Values by their keys, in the order in which the keys come up. -/
def grouped (pairs : List (String × Value)) : List (String × List Value) :=
  pairs.foldl (fun groups (key, value) => intoGroup key value groups) []

/-- The entries of an object in groups. -/
def groupEntries (call : Caller) (entries : Entries) (criteria : Value) : Outcome Value := do
  let keyed ← Outcome.each
    (fun entry => do
      let key ←
        if criteria.isTruthy then invoke call criteria (entryArguments entry)
        else Outcome.value entry.1.1.toValue
      return (← key.groupKey, Value.record [entry.1]))
    entries.zipIdx
  let groups := (grouped keyed).map fun (key, members) =>
    let inner : Entries := members.flatMap fun member =>
      match member with
      | .object _ entries => entries
      | _ => []
    (Key.text key, Value.record inner)
  return .record groups

/-- Group the items of a sequence or the entries of an object. -/
def groupBy (call : Caller) (collection criteria : Value) : Outcome Value := do
  match collection, criteria with
  | .null, _ => return .null
  | .object _ entries, criteria => groupEntries call entries criteria
  | sequence, .null =>
    let items ← sequence.items
    return .record (items.zipIdx.map fun (item, index) =>
      (Key.text (toString index), Value.array [item]))
  | sequence, criteria =>
    let items ← sequence.items
    let keyed ← Outcome.each
      (fun item => do
        return (← (← invoke call criteria (numbered item)).groupKey, item.1))
      items.zipIdx
    return .record ((grouped keyed).map fun (key, members) => (Key.text key, .array members))

/-- The object of entries sorted by their keys. -/
def sortKeyed (entries : List (Value × (Key × Value))) : Except Fault Value := do
  let ordered ← Sorting.sortBy (fun left right => left.1.less right.1) entries
  return .record (ordered.map (·.2))

/-- Sort a list or the entries of an object. -/
def orderBy (call : Caller) (collection criteria : Value) : Outcome Value := do
  match collection, criteria with
  | .null, _ => return .null
  | .object _ entries, .null =>
    sortKeyed (entries.map fun entry => (entry.1.toValue, entry))
  | .object _ entries, criteria =>
    let keyed ← Outcome.each
      (fun (entry : Key × Value) => do
        return (← invoke call criteria [entry.2, entry.1.toValue], entry))
      entries
    sortKeyed keyed
  | sequence, .null =>
    let items ← sequence.items
    return .array (← (Sorting.sortBy Value.less items : Except Fault (List Value)))
  | sequence, criteria =>
    let items ← sequence.items
    let keyed ← Outcome.each
      (fun item => do return (← invoke call criteria (numbered item), item.2, item.1))
      items.zipIdx
    let ordered ← (Sorting.sortBy
      (fun left right => Sorting.numberedLess (left.1, left.2.1) (right.1, right.2.1)) keyed :
      Except Fault (List (Value × Nat × Value)))
    return .array (ordered.map (·.2.2))

/-- Cut a list into chunks of a positive size; the last one may be shorter. -/
def chunks (size : Nat) : Nat → List α → List (List α)
  | 0, _ => []
  | _, [] => []
  | fuel + 1, items => items.take size :: chunks size fuel (items.drop size)

/-- Cut a sequence or an object into parts of a size. -/
def divideBy (collection amount : Value) : Except Fault Value := do
  let size ← tryCatch amount.toInt fun fault =>
    if fault.isKindFault || fault.isDomainFault then
      throw (.mismatch (.expects "divideBy" "a numeric amount"))
    else throw fault
  if size ≤ 0 then
    return .array []
  match collection with
  | .object _ entries =>
    return .array ((chunks size.toNat entries.length entries).map Value.record)
  | sequence =>
    let items ← sequence.items
    return .array ((chunks size.toNat items.length items).map Value.array)

end Core

end Weave
