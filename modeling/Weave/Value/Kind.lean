import Weave.Number
import Weave.Value

namespace Weave

/-!
# Kinds of values

The name of a value's kind in messages, the name of its type in the language, its
reading as a number, and its truth.
-/

/-- What messages call a function. -/
def Function.kindName : Function → String
  | .builtin which =>
    match which with
    | .mapItems | .reduceItems | .filterItems | .flatMapItems | .distinctItems | .rangeItems
    | .both | .either => "method"
    | _ => "function"
  | .plus .. | .dispatch .. => "function"
  | .lambda .. => "LambdaCallable"
  | .implicit .. => "ImplicitLambdaCallable"
  | .declared .. => "DefinedFunction"
  | .overloaded .. => "OverloadedFunction"

namespace Value

/-- What messages call the kind of a value. -/
def kindName : Value → String
  | .null => "NoneType"
  | .bool _ => "bool"
  | .int _ => "int"
  | .float _ => "float"
  | .text _ => "str"
  | .bytes _ => "bytes"
  | .buffer _ => "bytearray"
  | .list .data _ => "list"
  | .list .xml _ => "XMLNodeList"
  | .tuple _ => "tuple"
  | .object .data _ => "dict"
  | .object .xml _ => "XMLNodeDict"
  | .date _ => "date"
  | .clock _ => "time"
  | .moment _ => "datetime"
  | .period _ => "timedelta"
  | .function callee => callee.kindName

/-- The name of the type of a value. -/
def typeName : Value → String
  | .null => "Null"
  | .bool _ => "Boolean"
  | .int _ | .float _ => "Number"
  | .text _ => "String"
  | .list .. | .tuple _ => "Array"
  | .object .. => "Object"
  | .moment _ => "DateTime"
  | .date _ => "Date"
  | .clock _ => "Time"
  | .period _ => "Period"
  | other => other.kindName

/-- A value as a number; the truth values are one and zero. -/
def number? : Value → Option Number
  | .bool value => some (.int (if value then 1 else 0))
  | .int value => some (.int value)
  | .float value => some (.float value)
  | _ => none

/-- A number as a value. -/
def ofNumber : Number → Value
  | .int value => .int value
  | .float value => .float value

/-- Whether a value counts as true. -/
def isTruthy : Value → Bool
  | .null => false
  | .bool value => value
  | .int value => value != 0
  | .float value => value != 0.0
  | .text value => !value.isEmpty
  | .bytes data | .buffer data => !data.isEmpty
  | .list _ items | .tuple items => !items.isEmpty
  | .object _ entries => !entries.isEmpty
  | .period span => span.microseconds != 0
  | .date _ | .clock _ | .moment _ | .function _ => true

def isNull : Value → Bool
  | .null => true
  | _ => false

def isBool : Value → Bool
  | .bool _ => true
  | _ => false

def isText : Value → Bool
  | .text _ => true
  | _ => false

def isList : Value → Bool
  | .list .. => true
  | _ => false

def isObject : Value → Bool
  | .object .. => true
  | _ => false

def isBinary : Value → Bool
  | .bytes _ | .buffer _ => true
  | _ => false

def isFunction : Value → Bool
  | .function _ => true
  | _ => false

mutual

/-- Whether a value, or one that it holds, passes a test. -/
def holds (test : Value → Bool) : Value → Bool
  | .list origin items => test (.list origin items) || someHolds test items
  | .tuple items => test (.tuple items) || someHolds test items
  | .object origin entries => test (.object origin entries) || entryHolds test entries
  | value => test value

/-- Whether an item, or a value that it holds, passes a test. -/
def someHolds (test : Value → Bool) : List Value → Bool
  | [] => false
  | item :: rest => holds test item || someHolds test rest

/-- Whether the value of an entry, or one that it holds, passes a test. -/
def entryHolds (test : Value → Bool) : List (Key × Value) → Bool
  | [] => false
  | (_, value) :: rest => holds test value || entryHolds test rest

end

end Value

end Weave
