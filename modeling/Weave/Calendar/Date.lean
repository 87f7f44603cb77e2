import Weave.Text.Digit

namespace Weave.Calendar

/-!
# Dates

Dates of the Gregorian calendar from the year 1 to the year 9999, counted from
the first of January of the year 1, which is day 1.
-/

def padded (width value : Nat) : List Char :=
  let digits := Text.decimal value
  List.replicate (width - digits.length) '0' ++ digits

def isLeapYear (year : Nat) : Bool :=
  year % 4 == 0 && (year % 100 != 0 || year % 400 == 0)

def daysInMonth (year month : Nat) : Nat :=
  match month with
  | 2 => if isLeapYear year then 29 else 28
  | 4 | 6 | 9 | 11 => 30
  | _ => 31

def daysBeforeYear (year : Nat) : Nat :=
  let passed := year - 1
  passed * 365 + passed / 4 - passed / 100 + passed / 400

def daysBeforeMonth (year month : Nat) : Nat :=
  (List.range (month - 1)).foldl (fun days index => days + daysInMonth year (index + 1)) 0

/-- A day in the calendar. -/
structure Date where
  year : Nat
  month : Nat
  day : Nat
  deriving Repr, DecidableEq

namespace Date

def isValid (date : Date) : Bool :=
  1 ≤ date.year && date.year ≤ 9999 && 1 ≤ date.month && date.month ≤ 12 && 1 ≤ date.day &&
    date.day ≤ daysInMonth date.year date.month

/-- The number of a day, from the first of year one. -/
def ordinal (date : Date) : Nat :=
  daysBeforeYear date.year + daysBeforeMonth date.year date.month + date.day

def lastOrdinal : Nat := 3652059

/-- The month and the day of the `offset`-th day of a year, found month by month. -/
def monthFrom (year : Nat) : Nat → Nat → Nat → Nat × Nat
  | 0, month, offset => (month, offset + 1)
  | fuel + 1, month, offset =>
    let length := daysInMonth year month
    if offset < length then (month, offset + 1)
    else monthFrom year fuel (month + 1) (offset - length)

def ofOrdinal? (ordinal : Int) : Option Date :=
  if ordinal < 1 || ordinal > lastOrdinal then none
  else
    let count := ordinal.toNat
    let guess := count / 366 + 1
    let year := ((List.range 40).foldl
      (fun year _ => if daysBeforeYear (year + 1) < count then year + 1 else year) guess)
    let (month, day) := monthFrom year 11 1 (count - 1 - daysBeforeYear year)
    some ⟨year, month, day⟩

def write (date : Date) : List Char :=
  padded 4 date.year ++ '-' :: padded 2 date.month ++ '-' :: padded 2 date.day

end Date

end Weave.Calendar
