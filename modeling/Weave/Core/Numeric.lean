import Weave.Calendar.Read
import Weave.Value.Convert

namespace Weave.Core

/-!
# Numbers

Sums, averages, rounding, tests and ranges of numbers.  Where a number is wanted, a
text is read as a numeral.
-/

/-- A period, unless it is too long. -/
def checkedPeriod (period : Calendar.Period) : Except Fault Value :=
  if period.isValid then .ok (.period period) else .error (.defect .overflow)

/-- A number or a period without its sign. -/
def absolute : Value → Except Fault Value
  | .float value => .ok (.float value.abs)
  | .period span => checkedPeriod ⟨span.microseconds.natAbs⟩
  | value =>
    match value.number? with
    | some (.int number) => .ok (.int number.natAbs)
    | _ => .error (.defect .operands)

/-- The members of a value as floats. -/
def floatsOf (values : Value) : Except Fault (List Float) := do
  (← values.members).mapM Value.toFloat

/-- The sum of floats from left to right. -/
def sumOf (numbers : List Float) : Float :=
  numbers.foldl (· + ·) 0.0

/-- The sum; an integer if all numbers are. -/
def total (values : Value) : Except Fault Value := do
  let numbers ← floatsOf values
  if numbers.isEmpty then
    return .int 0
  let result := sumOf numbers
  if numbers.all Decimal.isWhole then return .int (← Number.truncate result)
  else return .float result

/-- The mean of numbers, of which there must be one. -/
def average (values : Value) : Except Fault Value := do
  let numbers ← floatsOf values
  if numbers.isEmpty then throw .emptyAverage
  else return .float (sumOf numbers / Float.ofNat numbers.length)

/-- A number rounded by a rule. -/
def rounded (rule : Decimal.Exact → Int) (value : Value) : Except Fault Value := do
  return .int (← Number.ofExact rule (← value.toFloat))

/-- Whether two floats agree up to a billionth of the larger one. -/
def isClose (left right : Float) : Bool :=
  let distance := (left - right).abs
  left == right || distance ≤ (1e-9 * right).abs || distance ≤ (1e-9 * left).abs

/-- Whether a number is close to an integer. -/
def isNearWhole (value : Value) : Except Fault Bool := do
  let number ← value.toNumeral
  return isClose number (Decimal.ofInt (← Number.ofExact Decimal.Exact.nearest number))

/-- Whether a value is close to an integer. -/
def isInteger : Value → Except Fault Value
  | .null => .ok (.bool false)
  | value => do return .bool (← isNearWhole value)

/-- Whether a value is close to no integer. -/
def isDecimal : Value → Except Fault Value
  | .null => .ok (.bool false)
  | value => do return .bool !(← isNearWhole value)

/-- A number without its fraction. -/
def wholeOf (value : Value) : Except Fault Int := do
  Number.truncate (← value.toNumeral)

/-- Whether the integer of a value is even. -/
def isEven (value : Value) : Except Fault Value := do
  return .bool ((← wholeOf value) % 2 == 0)

/-- Whether the integer of a value is odd. -/
def isOdd (value : Value) : Except Fault Value := do
  return .bool ((← wholeOf value) % 2 != 0)

/-- The integers from one to another, upwards or downwards, both included. -/
def interval (first last : Int) : List Int :=
  (List.range ((last - first).natAbs + 1)).map fun (index : Nat) =>
    if first ≤ last then first + index else first - index

/-- The integers from one to another, also backwards. -/
def range (start stop : Value) : Except Fault Value := do
  let first ← wholeOf start
  let last ← wholeOf stop
  return .array ((interval first last).map Value.int)

/-- A power of floats, which must not overflow. -/
def power (base exponent : Value) : Except Fault Value := do
  let left ← base.toNumeral
  let right ← exponent.toNumeral
  let result := left.pow right
  if Decimal.isUnbounded left || Decimal.isUnbounded right || !Decimal.isUnbounded result then
    return .float result
  else if result.isNaN || left == 0.0 then
    throw (.defect .domain)
  else
    throw (.defect .overflow)

/-- The remainder of a division, with the sign of the divisor. -/
def modulo (dividend divisor : Value) : Except Fault Value := do
  let left ← dividend.toNumeral
  let right ← divisor.toNumeral
  if right == 0.0 then throw (.defect .zeroDivision)
  else return .float (Decimal.remainder left right)

/-- The integer below a bound for a chosen number below one. -/
def randomBelow (chosen : Float) (bound : Value) : Except Fault Value := do
  return .int (← Number.truncate (chosen * (← bound.toNumeral)))

/-- The Gregorian rule. -/
def isLeapYear (year : Int) : Bool :=
  (year % 4 == 0 && year % 100 != 0) || year % 400 == 0

/-- Whether the year that a date or a text starts with is a leap year. -/
def startsInLeapYear : Value → Bool
  | .null => false
  | .moment point => isLeapYear point.date.year
  | value =>
    let text :=
      match value with
      | .text written => String.ofList (Text.trimOnly '|' written.toList)
      | other => other.toText.toOption.getD ""
    (Decimal.readInt? (text.toList.take 4)).any isLeapYear

/-- A moment, or a text that writes one, with or without bars around it. -/
def momentOf : Value → Except Fault Calendar.Moment
  | .moment point => .ok point
  | value =>
    let text := Text.trimOnly '|' (Text.trim (value.toText.toOption.getD "").toList)
    let written :=
      if text.getLast? == some 'Z' then text.dropLast ++ "+00:00".toList else text
    match Calendar.Moment.read? written with
    | some point => .ok point
    | none => .error (.defect .domain)

/-- The days between two moments, without a fraction. -/
def daysBetween (first last : Value) : Except Fault Value := do
  let start ← momentOf first
  let stop ← momentOf last
  if start.comparable stop then
    let span := stop.instant - start.instant
    let days := Decimal.ofFraction (span < 0) span.natAbs Calendar.Period.day
    return .int (← Number.truncate days)
  else
    throw (.defect .operands)

end Weave.Core
