namespace Weave.Decimal

/-!
# The exact value of a float

A finite float is an integer times a power of two.  Everything that must be exact
(rounding to an integer, remainders, quotients of integers, shortest digits) is
computed on that form in integer arithmetic.
-/

def twoTo (exponent : Nat) : Nat :=
  Nat.pow 2 exponent

def tenTo (exponent : Nat) : Nat :=
  Nat.pow 10 exponent

/-- A finite float: a sign, a magnitude below `twoTo 53`, and the power of two it is scaled by. -/
structure Exact where
  negative : Bool
  magnitude : Nat
  power : Int
  deriving Repr, DecidableEq

/-- The exact value of a float that is neither infinite nor undefined. -/
def toExact (value : Float) : Option Exact :=
  let bits := value.toBits.toNat
  let negative : Bool := bits / twoTo 63 == 1
  let scale : Nat := bits / twoTo 52 % twoTo 11
  let fraction : Nat := bits % twoTo 52
  if scale == 2047 then none
  else if scale == 0 then some ⟨negative, fraction, -1074⟩
  else some ⟨negative, fraction + twoTo 52, (scale : Int) - 1075⟩

def signed (negative : Bool) (magnitude : Nat) : Int :=
  if negative then -(magnitude : Int) else magnitude

namespace Exact

def numerator (value : Exact) : Nat :=
  value.magnitude * twoTo value.power.toNat

def denominator (value : Exact) : Nat :=
  twoTo (-value.power).toNat

def isWhole (value : Exact) : Bool :=
  value.numerator % value.denominator == 0

/-- The integer next to the value in the direction of zero. -/
def truncated (value : Exact) : Int :=
  signed value.negative (value.numerator / value.denominator)

def floor (value : Exact) : Int :=
  Int.fdiv (signed value.negative value.numerator) value.denominator

def ceiling (value : Exact) : Int :=
  -(Int.fdiv (signed (!value.negative) value.numerator) value.denominator)

/-- The nearest integer; of two equally near ones the even one. -/
def nearest (value : Exact) : Int :=
  let whole := value.numerator / value.denominator
  let doubled := 2 * (value.numerator % value.denominator)
  let up := doubled > value.denominator || (doubled == value.denominator && whole % 2 == 1)
  signed value.negative (if up then whole + 1 else whole)

end Exact

def isWhole (value : Float) : Bool :=
  match toExact value with
  | some exact => exact.isWhole
  | none => false

/-- The quotient of two numbers rounded to the nearest integer, a tie going to the even one. -/
def divideToEven (numerator denominator : Nat) : Nat :=
  let whole := numerator / denominator
  let doubled := 2 * (numerator % denominator)
  if doubled > denominator || (doubled == denominator && whole % 2 == 1) then whole + 1 else whole

/--
The float nearest to a fraction, a tie going to the even neighbour; an infinite
float if the fraction is too large.  The denominator is positive.
-/
def ofFraction (negative : Bool) (numerator denominator : Nat) : Float :=
  let unsigned : Float :=
    if numerator == 0 then 0.0
    else
      let estimate : Int := (numerator.log2 : Int) - denominator.log2
      let below : Bool :=
        numerator * twoTo (-estimate).toNat < denominator * twoTo estimate.toNat
      let leading : Int := if below then estimate - 1 else estimate
      let power : Int := max (leading - 52) (-1074)
      let magnitude :=
        divideToEven (numerator * twoTo (-power).toNat) (denominator * twoTo power.toNat)
      if power > 971 then 1.0 / 0.0 else (Float.ofNat magnitude).scaleB power
  if negative then -unsigned else unsigned

/-- The float nearest to an integer; infinite if the integer is too large. -/
def ofInt (value : Int) : Float :=
  ofFraction (value < 0) value.natAbs 1

def isUnbounded (value : Float) : Bool :=
  (toExact value).isNone

/-- The least integer that is too large for a float. -/
def floatLimit : Nat :=
  twoTo 1024 - twoTo 970

/--
The remainder of a division that rounds its quotient down, so that it has the
sign of the divisor.  The divisor is not zero.
-/
def remainder (dividend divisor : Float) : Float :=
  match toExact dividend, toExact divisor with
  | none, _ => 0.0 / 0.0
  | some left, none =>
    if divisor.isNaN then divisor
    else if left.magnitude == 0 then (if divisor < 0.0 then -0.0 else 0.0)
    else if left.negative == (divisor < 0.0 : Bool) then dividend
    else divisor
  | some left, some right =>
    let power := min left.power right.power
    let above := left.magnitude * twoTo (left.power - power).toNat
    let below := right.magnitude * twoTo (right.power - power).toNat
    let rest := above % below
    if rest == 0 then (if right.negative then -0.0 else 0.0)
    else
      let scaled (magnitude : Nat) : Float :=
        ofFraction false (magnitude * twoTo power.toNat) (twoTo (-power).toNat)
      let kept := if left.negative then -(scaled rest) else scaled rest
      if left.negative == right.negative then kept else kept + divisor

end Weave.Decimal
