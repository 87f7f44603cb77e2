import Weave.Decimal.Exact
import Weave.Text.Blank
import Weave.Text.Digit

namespace Weave.Decimal

/-!
# Numbers read from text

Integers and floats as people write them: blanks around, a sign, digits of any
script, an underscore between two digits, and for floats a point, an exponent or
one of the words for infinity and for an undefined result.
-/

/-- Digits and blanks beyond ASCII replaced by their ASCII counterparts. -/
def plainNumeral (text : List Char) : List Char :=
  text.map fun character =>
    if character.toNat < 127 then character
    else if Text.isBlank character then ' '
    else
      match Text.digit? character with
      | some value => Char.ofNat (48 + value)
      | none => character

def isNumeralBlank (character : Char) : Bool :=
  character == ' ' || (9 ≤ character.toNat && character.toNat ≤ 13)

def trimNumeral (text : List Char) : List Char :=
  Text.dropEndWhile isNumeralBlank ((plainNumeral text).dropWhile isNumeralBlank)

/-- Remove the underscores that stand between two digits; no reading if one stands elsewhere. -/
def withoutUnderscores : Bool → List Char → Option (List Char)
  | _, [] => some []
  | afterDigit, '_' :: rest =>
    match rest with
    | next :: _ =>
      if afterDigit && next.isDigit then withoutUnderscores false rest else none
    | [] => none
  | _, character :: rest =>
    (withoutUnderscores character.isDigit rest).map (character :: ·)

def splitSign : List Char → Bool × List Char
  | '-' :: rest => (true, rest)
  | '+' :: rest => (false, rest)
  | text => (false, text)

def digitsValue (digits : List Char) : Nat :=
  digits.foldl (fun value digit => value * 10 + (digit.toNat - 48)) 0

/-- How many digits an integer that is read or written as text may have. -/
def integerDigitLimit : Nat := 4300

/-- Whether an integer has too many digits to be written. -/
def isLong (value : Int) : Bool :=
  (Text.decimal value.natAbs).length > integerDigitLimit

def readInt? (text : List Char) : Option Int :=
  match withoutUnderscores false (trimNumeral text) with
  | none => none
  | some plain =>
    let (negative, digits) := splitSign plain
    if digits.isEmpty || !digits.all Char.isDigit then none
    else if digits.length > integerDigitLimit then none
    else some (signed negative (digitsValue digits))

/-- The float nearest to `digits * 10 ^ power`. -/
def ofDecimal (negative : Bool) (digits : Nat) (power : Int) : Float :=
  let magnitude : Int := (Nat.toDigits 10 digits).length + power
  let unsigned : Float :=
    if digits == 0 || magnitude < -330 then 0.0
    else if magnitude > 310 then 1.0 / 0.0
    else Float.ofScientific digits (power < 0) power.natAbs
  if negative then -unsigned else unsigned

/-- The exponent a numeral ends with; none if what stands there is no exponent. -/
def exponent? : List Char → Option Int
  | [] => some 0
  | mark :: rest =>
    if mark == 'e' || mark == 'E' then
      let (negative, digits) := splitSign rest
      if digits.isEmpty || !digits.all Char.isDigit then none
      else some (signed negative (digitsValue digits))
    else none

/-- Read an unsigned decimal with an optional fraction and exponent. -/
def decimal? (negative : Bool) (text : List Char) : Option Float :=
  let whole := text.takeWhile Char.isDigit
  let rest := text.dropWhile Char.isDigit
  let (fraction, tail) :=
    match rest with
    | '.' :: rest => (rest.takeWhile Char.isDigit, rest.dropWhile Char.isDigit)
    | rest => ([], rest)
  if whole.isEmpty && fraction.isEmpty then none
  else
    (exponent? tail).map fun exponent =>
      ofDecimal negative (digitsValue (whole ++ fraction)) (exponent - fraction.length)

/-- The words for floats that are no decimals, in lower case. -/
def unboundedWord? (word : List Char) : Option Float :=
  if word = ['i', 'n', 'f'] || word = ['i', 'n', 'f', 'i', 'n', 'i', 't', 'y'] then some (1.0 / 0.0)
  else if word = ['n', 'a', 'n'] then some (0.0 / 0.0)
  else none

def readFloat? (text : List Char) : Option Float :=
  match withoutUnderscores false (trimNumeral text) with
  | none => none
  | some plain =>
    let (negative, unsigned) := splitSign plain
    match unboundedWord? (unsigned.map Char.toLower) with
    | some value => some (if negative then -value else value)
    | none => decimal? negative unsigned

end Weave.Decimal
