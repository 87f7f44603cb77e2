import Weave.Decimal.Exact
import Weave.Fault

namespace Weave

/-!
# Numbers

Integers of any size and floats.  The two are compared by their exact values.
-/

/-- Integers and floats. -/
inductive Number where
  | int (value : Int)
  | float (value : Float)
  deriving Repr

namespace Number

/-- Where a number lies: some multiple of the least positive float, or beyond all floats. -/
inductive Place where
  | below
  | multiple (count : Int)
  | above
  deriving Repr, DecidableEq

/-- The order of two places. -/
def Place.order : Place → Place → Ordering
  | .multiple left, .multiple right => compare left right
  | .below, .below | .above, .above => .eq
  | .below, _ | _, .above => .lt
  | .above, _ | _, .below => .gt

/-- The place of a number; none if it is undefined. -/
def place? : Number → Option Place
  | .int value => some (.multiple (value * Decimal.twoTo 1074))
  | .float value =>
    match Decimal.toExact value with
    | some exact =>
      let count := exact.magnitude * Decimal.twoTo (exact.power + 1074).toNat
      some (.multiple (Decimal.signed exact.negative count))
    | none => if value.isNaN then none else some (if value < 0.0 then .below else .above)

/-- The order of two numbers by their exact values; none if one is undefined. -/
def compare? (left right : Number) : Option Ordering := do
  return (← left.place?).order (← right.place?)

/-- Whether two numbers are equal; an undefined one is equal to none. -/
def same (left right : Number) : Bool :=
  compare? left right == some .eq

/-- A number as a float, if it is not too large. -/
def toFloat : Number → Except Fault Float
  | .float value => .ok value
  | .int value =>
    if Decimal.floatLimit ≤ value.natAbs then .error (.defect .overflow)
    else .ok (Decimal.ofInt value)

/-- A float, as an integer if it is one. -/
def simplify (value : Float) : Number :=
  match Decimal.toExact value with
  | some exact => if exact.isWhole then .int exact.truncated else .float value
  | none => .float value

/-- What a rule makes of the exact value of a float, which an undefined or infinite one lacks. -/
def ofExact (rule : Decimal.Exact → α) (value : Float) : Except Fault α :=
  match Decimal.toExact value with
  | some exact => .ok (rule exact)
  | none => .error (.defect (if value.isNaN then .domain else .overflow))

/-- The integer next to a float in the direction of zero. -/
def truncate (value : Float) : Except Fault Int :=
  ofExact Decimal.Exact.truncated value

/-- Whether a number is zero. -/
def isZero : Number → Bool
  | .int value => value == 0
  | .float value => value == 0.0

/-- The sum of two numbers. -/
def add (left right : Number) : Except Fault Number := do
  return simplify ((← left.toFloat) + (← right.toFloat))

/-- The product: exact for integers, a float otherwise. -/
def multiply : Number → Number → Except Fault Number
  | .int left, .int right => .ok (.int (left * right))
  | left, right => do return .float ((← left.toFloat) * (← right.toFloat))

/-- The quotient as a float; the divisor is not zero. -/
def divide : Number → Number → Except Fault Number
  | .int left, .int right =>
    let quotient :=
      Decimal.ofFraction ((left < 0) != (right < 0 : Bool)) left.natAbs right.natAbs
    if Decimal.isUnbounded quotient then .error (.defect .overflow) else .ok (.float quotient)
  | left, right => do return .float ((← left.toFloat) / (← right.toFloat))

end Number

end Weave
