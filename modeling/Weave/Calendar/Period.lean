import Weave.Calendar.Date
import Weave.Decimal.Shortest

namespace Weave.Calendar

/-!
# Periods

A span of time in microseconds, shown as days, hours, minutes and seconds.  The
days may be negative; the rest never is.
-/

/-- A length of time. -/
structure Period where
  microseconds : Int
  deriving Repr, DecidableEq

namespace Period

def day : Nat := 86400000000

def ofParts (days seconds microseconds : Int) : Period :=
  ⟨days * day + seconds * 1000000 + microseconds⟩

def days (period : Period) : Int :=
  Int.fdiv period.microseconds day

def seconds (period : Period) : Nat :=
  (Int.fmod period.microseconds day).toNat / 1000000

def fraction (period : Period) : Nat :=
  (Int.fmod period.microseconds day).toNat % 1000000

def isValid (period : Period) : Bool :=
  period.days.natAbs ≤ 999999999

/-- The microseconds behind a point, unless there are none. -/
def writeFraction (fraction : Nat) : List Char :=
  if fraction == 0 then [] else '.' :: padded 6 fraction

def write (period : Period) : List Char :=
  let hours := period.seconds / 3600
  let minutes := period.seconds / 60 % 60
  let clock :=
    Text.decimal hours ++ ':' :: padded 2 minutes ++ ':' :: padded 2 (period.seconds % 60)
  let shown := clock ++ writeFraction period.fraction
  if period.days == 0 then shown
  else
    let unit := if period.days.natAbs == 1 then " day, " else " days, "
    (Decimal.writeInt period.days).toList ++ unit.toList ++ shown

/-- A quotient rounded to the nearest integer, a tie going to the even one. -/
def divideRounded (numerator : Int) (denominator : Int) : Int :=
  Decimal.signed ((numerator < 0) != (denominator < 0 : Bool))
    (Decimal.divideToEven numerator.natAbs denominator.natAbs)

end Period

end Weave.Calendar
