import Weave.Core.Numeric
import Weave.Text.Search

namespace Weave.Core

/-!
# Operators on values

The sum, the product, the quotient, the concatenation and the difference.  The product
and the quotient take a value that counts as false for zero, and a divisor that does
for one.
-/

/-- A moment moved by a period, which may leave the calendar. -/
def moved (moment : Calendar.Moment) (period : Calendar.Period) : Except Fault Calendar.Moment :=
  match moment.after? period with
  | some result => .ok result
  | none => .error (.defect .overflow)

/-- A date moved by a period from midnight on. -/
def movedDate (date : Calendar.Date) (period : Calendar.Period) : Except Fault Value := do
  return .date (← moved ⟨date, .midnight⟩ period).date

/-- The day on which times of day are moved. -/
def firstDay : Calendar.Date :=
  ⟨1970, 1, 1⟩

/-- A time of day moved by a period; its distance from universal time is dropped. -/
def movedClock (clock : Calendar.Clock) (period : Calendar.Period) : Except Fault Value := do
  let result ← moved ⟨firstDay, clock⟩ period
  return .clock { result.clock with offset := none }

/-- An operand of a refused sum as the message shows it. -/
def operand (value : Value) : Except Fault Operand := do
  return ⟨value.typeName, ← value.preview⟩

/-- The sum of two values; a refused sum points at a place. -/
def plus (left right : Value) (place : Option Position) : Except Fault Value :=
  match left.number?, right.number? with
  | some first, some second => do return .ofNumber (← first.add second)
  | _, _ =>
    match left, right with
    | .list _ items, item => .ok (.array (items ++ [item]))
    | .moment point, .period span => do return .moment (← moved point span)
    | .date day, .period span => movedDate day span
    | .clock time, .period span => movedClock time span
    | .period span, .moment point => do return .moment (← moved point span)
    | .period span, .date day => movedDate day span
    | .period span, .clock time => movedClock time span
    | .period first, .period second =>
      checkedPeriod ⟨first.microseconds + second.microseconds⟩
    | left, right => do
      throw (.refused (.badSum (← operand left) (← operand right) place) none)

/-- The number itself, or zero for a value that counts as false. -/
def orZero (value : Value) : Value :=
  if value.isTruthy then value else .int 0

/-- The number itself, or one for a value that counts as false. -/
def orOne (value : Value) : Value :=
  if value.isTruthy then value else .int 1

/-- No sequence is repeated more often than this. -/
def repetitionLimit : Int := 9223372036854775807

/-- A sequence repeated; a negative count stands for zero. -/
def repeated (count : Int) (items : List α) : Except Fault (List α) :=
  if count > repetitionLimit || -count > repetitionLimit + 1 then .error (.defect .overflow)
  else .ok (List.replicate count.toNat items).flatten

/-- A sequence value repeated; none for values that are no sequences. -/
def repeatedValue? (count : Int) : Value → Option (Except Fault Value)
  | .text value =>
    some do return .text (String.ofList (← repeated count value.toList))
  | .bytes data => some do return .bytes (← repeated count data)
  | .buffer data => some do return .buffer (← repeated count data)
  | .list _ items => some do return .array (← repeated count items)
  | .tuple items => some do return .tuple (← repeated count items)
  | _ => none

/-- A period times a fraction, rounded to the nearest microsecond. -/
def scaledPeriod (period : Calendar.Period) (numerator denominator : Int) : Except Fault Value :=
  checkedPeriod ⟨Calendar.Period.divideRounded (period.microseconds * numerator) denominator⟩

/-- The exact value of a float as a numerator and a denominator. -/
def fractionOf (value : Float) : Except Fault (Int × Int) :=
  Number.ofExact
    (fun exact => (Decimal.signed exact.negative exact.numerator, exact.denominator)) value

/-- A multiple of a period. -/
def timesPeriod (period : Calendar.Period) : Number → Except Fault Value
  | .int factor => scaledPeriod period factor 1
  | .float factor => do
    let (numerator, denominator) ← fractionOf factor
    scaledPeriod period numerator denominator

/-- A value times a number: a period, or a sequence repeated. -/
def timesNumber (value : Value) (factor : Number) : Except Fault Value :=
  match value, factor with
  | .period span, factor => timesPeriod span factor
  | value, .int count => (repeatedValue? count value).getD (.error (.defect .operands))
  | _, .float _ => .error (.defect .operands)

/-- The product; what is false counts as zero. -/
def times (left right : Value) : Except Fault Value :=
  let first := orZero left
  let second := orZero right
  match first.number?, second.number? with
  | some first, some second => do return .ofNumber (← first.multiply second)
  | none, some factor => timesNumber first factor
  | some factor, none => timesNumber second factor
  | none, none => .error (.defect .operands)

/-- The quotient; for false values zero is divided, and divided by one. -/
def divide (left right : Value) : Except Fault Value :=
  let first := orZero left
  let second := orOne right
  match first.number?, second.number? with
  | some first, some second => do return .ofNumber (← first.divide second)
  | _, _ =>
    match first, second with
    | .period first, .period second =>
      let (above, below) := (first.microseconds, second.microseconds)
      .ok (.float (Decimal.ofFraction ((above < 0) != (below < 0 : Bool)) above.natAbs
        below.natAbs))
    | .period span, divisor =>
      match divisor.number? with
      | some (.int divisor) => scaledPeriod span 1 divisor
      | some (.float divisor) => do
        let (numerator, denominator) ← fractionOf divisor
        scaledPeriod span denominator numerator
      | none => .error (.defect .operands)
    | _, _ => .error (.defect .operands)

/-- The bytes of binary data. -/
def bytes? : Value → Option (List UInt8)
  | .bytes data | .buffer data => some data
  | _ => none

/-- The concatenation: of lists, texts, objects or bytes, and of the texts of other values. -/
def concat : Value → Value → Except Fault Value
  | .list _ left, .list _ right => .ok (.array (left ++ right))
  | .text left, .text right => .ok (.text (left ++ right))
  | .object _ left, .object _ right => .ok (.record (Entries.insertAll left right))
  | left, right =>
    match bytes? left, bytes? right with
    | some left, some right => .ok (.bytes (left ++ right))
    | _, _ => do return .text ((← left.toText) ++ (← right.toText))

/-- Entries without the key that a value stands for; where there are none, any value will do. -/
def withoutKey (entries : Entries) (key : Value) : Except Fault Entries := do
  if entries.isEmpty then
    return entries
  key.requireMember
  match Key.ofValue? key with
  | some key => return Entries.erase entries key
  | none => return entries

/-- Entries without the keys that values stand for. -/
def withoutKeys (entries : Entries) (keys : List Value) : Except Fault Entries :=
  keys.foldlM withoutKey entries

/-- The items that are not among others; all must be members of a set. -/
def withoutItems (items removed : List Value) : Except Fault (List Value) := do
  removed.forM Value.requireMember
  items.filterM fun item => do
    item.requireMember
    return !removed.contains item

/-- The difference: a list without items, an object without keys, a text without a part. -/
def diff (left right : Value) : Except Fault Value :=
  match left, right with
  | .list _ items, .list _ removed => do return .array (← withoutItems items removed)
  | .list _ items, removed => do return .array (← withoutItems items [removed])
  | .object _ entries, .object _ removed =>
    .ok (.record (removed.foldl (fun entries (key, _) => Entries.erase entries key) entries))
  | .object _ entries, .list _ keys => do return .record (← withoutKeys entries keys)
  | .object _ entries, key => do return .record (Entries.erase entries (.text (← key.toText)))
  | .text text, removed => do return .text (Text.replaced (← removed.toText) "" text)
  | left, _ => .ok left

end Weave.Core
