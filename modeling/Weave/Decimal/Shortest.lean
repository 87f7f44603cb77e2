import Weave.Decimal.Exact
import Weave.Text.Digit

namespace Weave.Decimal

/-!
# Shortest digits

The fewest decimal digits that read back as the same float.  Of the decimals with
that many digits the one nearest to the float is taken.  The digits are found by
testing, for one digit, two digits and so on, the two neighbours of the float on
the grid of decimals with that many digits.
-/

/-- The numbers that round to a float, between two bounds over a common denominator. -/
structure Interval where
  below : Nat
  centre : Nat
  above : Nat
  denominator : Nat
  closed : Bool

def Interval.ofExact (value : Exact) : Interval :=
  let narrow := value.magnitude == twoTo 52 && value.power > -1074
  let scale := twoTo (value.power - 2).toNat
  { below := (4 * value.magnitude - (if narrow then 1 else 2)) * scale
    centre := 4 * value.magnitude * scale
    above := (4 * value.magnitude + 2) * scale
    denominator := twoTo (2 - value.power).toNat
    closed := value.magnitude % 2 == 0 }

/-- How many digits stand before the point; not positive for zeros after the point. -/
def Interval.places (interval : Interval) : Int :=
  let whole := interval.centre / interval.denominator
  if whole > 0 then (Nat.toDigits 10 whole).length
  else
    let leading := (List.range 330).find? fun zeros =>
      interval.centre * tenTo (zeros + 1) ≥ interval.denominator
    Int.negOfNat (leading.getD 0)

/-- Whether `grid * 10 ^ power` rounds to the float. -/
def Interval.holds (interval : Interval) (grid : Nat) (power : Int) : Bool :=
  let value := grid * tenTo power.toNat * interval.denominator
  let scale := tenTo (-power).toNat
  if interval.closed then
    interval.below * scale ≤ value && value ≤ interval.above * scale
  else
    interval.below * scale < value && value < interval.above * scale

/-- The decimal with a given number of digits that rounds to the float, nearest first. -/
def Interval.digits? (interval : Interval) (count : Nat) : Option (Nat × Int) :=
  let power := interval.places - count
  let scaled := interval.centre * tenTo (-power).toNat
  let unit := interval.denominator * tenTo power.toNat
  let lower := scaled / unit
  let rest := scaled % unit
  let upperFirst := 2 * rest > unit || (2 * rest == unit && lower % 2 == 1)
  let candidates := if upperFirst then [lower + 1, lower] else [lower, lower + 1]
  (candidates.find? fun grid => interval.holds grid power).map fun grid => (grid, power)

/-- The digits of a decimal without the zeros at their end, and its power of ten. -/
def withoutZeros : Nat → Nat → Int → Nat × Int
  | 0, digits, power => (digits, power)
  | fuel + 1, digits, power =>
    if digits != 0 && digits % 10 == 0 then withoutZeros fuel (digits / 10) (power + 1)
    else (digits, power)

/-- The shortest decimal that reads back as a positive float, as digits and a power of ten. -/
def shortest (value : Exact) : Nat × Int :=
  let interval := Interval.ofExact value
  let found := (List.range 17).findSome? fun count => interval.digits? (count + 1)
  let (digits, power) := found.getD (0, 0)
  withoutZeros 20 digits power

/-- Where positional notation ends and how an exponent is written. -/
structure Layout where
  /-- The least exponent of ten written with zeros after the point. -/
  leastPositional : Int
  /-- The first exponent of ten that is too large for positional notation. -/
  firstScientific : Int
  /-- The least number of digits of an exponent. -/
  exponentWidth : Nat

/-- Numbers from a ten-thousandth up to ten to the sixteenth are written positionally. -/
def Layout.number : Layout :=
  ⟨-4, 16, 2⟩

/-- An exponent with its sign, padded to the least width. -/
def Layout.exponent (layout : Layout) (exponent : Int) : List Char :=
  let digits := Text.decimal exponent.natAbs
  let padding := List.replicate (layout.exponentWidth - digits.length) '0'
  'e' :: (if exponent < 0 then '-' else '+') :: padding ++ digits

def Layout.write (layout : Layout) (digits : Nat) (power : Int) : List Char :=
  let characters := Text.decimal digits
  let point : Int := characters.length + power
  let exponent := point - 1
  if layout.leastPositional ≤ exponent && exponent < layout.firstScientific then
    if point ≤ 0 then
      '0' :: '.' :: List.replicate (-point).toNat '0' ++ characters
    else if (characters.length : Int) ≤ point then
      characters ++ List.replicate (point - characters.length).toNat '0' ++ ['.', '0']
    else
      characters.take point.toNat ++ '.' :: characters.drop point.toNat
  else
    match characters with
    | [] => []
    | [single] => single :: layout.exponent exponent
    | first :: rest => first :: '.' :: rest ++ layout.exponent exponent

/-- The text of a float: the fewest digits that read back, with a point or an exponent. -/
def write (value : Float) : String :=
  match toExact value with
  | none => if value.isNaN then "nan" else if value < 0.0 then "-inf" else "inf"
  | some exact =>
    let unsigned :=
      if exact.magnitude == 0 then ['0', '.', '0']
      else
        let (digits, power) := shortest exact
        Layout.number.write digits power
    String.ofList (if exact.negative then '-' :: unsigned else unsigned)

def writeInt (value : Int) : String :=
  let digits := Text.decimal value.natAbs
  String.ofList (if value < 0 then '-' :: digits else digits)

end Weave.Decimal
