import Weave.Core.Arithmetic
import Weave.Core.Objects
import Weave.Core.Texts

namespace Weave

/-!
# Built-in functions at work

Every built-in function with its arguments.  A wrong number of arguments is an error of
its own before any argument is looked at.
-/

/-- What the surroundings give: the current time as text and a number between zero and one. -/
structure Ambient where
  now : String
  chance : Float

namespace Builtin

/-- The line that is logged for a value, behind some words if there are any. -/
def logLine (words value : Value) : Except Fault String :=
  if words.isTruthy then do return (← words.toText) ++ " - " ++ (← value.toText)
  else value.toText

/-- Log a value and leave it as it is. -/
def logged (level : LogLevel) (words value : Value) : Outcome Value := do
  Outcome.log level (← (logLine words value : Except Fault String))
  return value

def level : Builtin → LogLevel
  | .logDebug => .debug
  | .logInfo => .info
  | .logError => .error
  | _ => .warning

def runNone (ambient : Ambient) : Builtin → Outcome Value
  | .now => return .text ambient.now
  | .random => return .float ambient.chance
  | _ => throw (.defect .operands)

def runOne (ambient : Ambient) (builtin : Builtin) (value : Value) : Outcome Value :=
  match builtin with
  | .abs => Core.absolute value
  | .avg => Core.average value
  | .ceil => Core.rounded Decimal.Exact.ceiling value
  | .floor => Core.rounded Decimal.Exact.floor value
  | .round => Core.rounded Decimal.Exact.nearest value
  | .entriesOf | .entrySet => Core.onEntries "entriesOf" Core.entriesOf value
  | .isBlank => Core.isBlank value
  | .isDecimal => Core.isDecimal value
  | .isInteger => Core.isInteger value
  | .isEven => Core.isEven value
  | .isOdd => Core.isOdd value
  | .nameSet => Core.onEntries "nameSet" Core.namesOf value
  | .keySet => Core.onEntries "keySet" Core.keysOf value
  | .keysOf => Core.onEntries "keysOf" Core.keysOf value
  | .valuesOf => Core.onEntries "valuesOf" Core.valuesOf value
  | .valueSet => Core.valueSet value
  | .flatten => Core.flatten value
  | .isEmpty => return .bool (Core.isEmpty value)
  | .lower => Core.onText (fun text => .text (Text.lower text)) value
  | .upper => Core.onText (fun text => .text (Text.upper text)) value
  | .trim => Core.onText (fun text => .text (Text.trimmed text)) value
  | .maximum => Core.extreme .greater value
  | .minimum => Core.extreme .less value
  | .sizeOf => do return .int (← (Core.sizeOf value : Except Fault Nat))
  | .sum => Core.total value
  | .randomInt => Core.randomBelow ambient.chance value
  | .log | .logDebug | .logInfo | .logWarn | .logError => logged builtin.level .null value
  | _ => throw (.defect .operands)

def runTwo (call : Caller) (builtin : Builtin) (left right : Value) : Outcome Value :=
  match builtin with
  | .concat => Core.concat left right
  | .diff => Core.diff left right
  | .contains => Core.contains left right
  | .endsWith => Core.compareTexts Text.endsWith left right
  | .startsWith => Core.compareTexts Text.startsWith left right
  | .filterObject => Core.filterObject call left right
  | .find => Core.find left right
  | .divideBy => Core.divideBy left right
  | .mergeWith => Core.mergeWith left right
  | .filter => Core.filter call left right
  | .takeWhile => Core.takeWhile call left right
  | .everyEntry => Core.everyEntry call left right
  | .someEntry => Core.someEntry call left right
  | .flatMap => Core.flatMap call left right
  | .indexOf => Core.indexOf left right
  | .lastIndexOf => Core.lastIndexOf left right
  | .joinBy => Core.joinBy left right
  | .maxBy => Core.extremeBy call .greater left right
  | .minBy => Core.extremeBy call .less left right
  | .distinctBy => Core.distinctBy call left right
  | .groupBy => Core.groupBy call left right
  | .orderBy => Core.orderBy call left right
  | .groups => Core.groups left right
  | .fullMatch => Core.fullMatch left right
  | .splitBy => Core.splitBy left right
  | .range | .rangeItems => Core.range left right
  | .pluck => Core.pluck call left right
  | .log | .logDebug | .logInfo | .logWarn | .logError => logged builtin.level left right
  | .times => Core.times left right
  | .divide => Core.divide left right
  | .mapItems => Core.mapItems call left right
  | .reduceItems => Core.reduceItems call left right
  | .filterItems => Core.filterItems call left right
  | .flatMapItems => Core.flatMapItems call left right
  | .distinctItems => Core.distinctItems call left right
  | .equal => return .bool (left == right)
  | .notEqual => return .bool (left != right)
  | .greater => do return .bool (← (left.compare .greater right : Except Fault Bool))
  | .less => do return .bool (← (left.compare .less right : Except Fault Bool))
  | .greaterEqual => do return .bool (← (left.compare .greaterEqual right : Except Fault Bool))
  | .lessEqual => do return .bool (← (left.compare .lessEqual right : Except Fault Bool))
  | .both => return .bool (left.isTruthy && right.isTruthy)
  | .either => return .bool (left.isTruthy || right.isTruthy)
  | _ => throw (.defect .operands)

/-- Call a function that is built in. -/
def run (ambient : Ambient) (call : Caller) (builtin : Builtin) : List Value → Outcome Value
  | [] => runNone ambient builtin
  | [value] => runOne ambient builtin value
  | [left, right] => runTwo call builtin left right
  | _ => throw (.defect .operands)

end Builtin

end Weave
