import Weave.Calendar.Period

namespace Weave.Calendar

/-!
# Times of day

A time of day may carry its distance from universal time.  Two times that both
carry it are compared after subtracting it; a time that carries it and one that
does not are never equal and have no order.
-/

/-- A time of day, with its distance from universal time in microseconds if it has one. -/
structure Clock where
  hour : Nat
  minute : Nat
  second : Nat
  microsecond : Nat
  offset : Option Int
  deriving Repr, DecidableEq

namespace Clock

def midnight : Clock :=
  ⟨0, 0, 0, 0, none⟩

def isValid (clock : Clock) : Bool :=
  clock.hour < 24 && clock.minute < 60 && clock.second < 60 && clock.microsecond < 1000000

def sinceMidnight (clock : Clock) : Nat :=
  ((clock.hour * 60 + clock.minute) * 60 + clock.second) * 1000000 + clock.microsecond

/-- The time of day a number of microseconds after midnight. -/
def ofMicroseconds (count : Nat) (offset : Option Int) : Clock :=
  let seconds := count / 1000000
  ⟨seconds / 3600, seconds / 60 % 60, seconds % 60, count % 1000000, offset⟩

def instant (clock : Clock) : Int :=
  clock.sinceMidnight - clock.offset.getD 0

/-- The distance from universal time as a sign, hours and minutes. -/
def writeOffset : Option Int → List Char
  | none => []
  | some offset =>
    let seconds := offset.natAbs / 1000000
    let fraction := offset.natAbs % 1000000
    let exact := seconds % 60 != 0 || fraction != 0
    (if offset < 0 then '-' else '+') :: padded 2 (seconds / 3600) ++
      ':' :: padded 2 (seconds / 60 % 60) ++
      (if exact then ':' :: padded 2 (seconds % 60) else []) ++ Period.writeFraction fraction

/-- A time of day with colons between its parts. -/
def write (clock : Clock) : List Char :=
  padded 2 clock.hour ++ ':' :: padded 2 clock.minute ++ ':' :: padded 2 clock.second ++
    Period.writeFraction clock.microsecond ++ writeOffset clock.offset

end Clock

/-- A date with a time of day. -/
structure Moment where
  date : Date
  clock : Clock
  deriving Repr, DecidableEq

namespace Moment

/-- The microseconds since the day before the first, as the clock shows them. -/
def shown (moment : Moment) : Int :=
  moment.date.ordinal * Period.day + moment.clock.sinceMidnight

/-- The microseconds since the day before the first, at universal time. -/
def instant (moment : Moment) : Int :=
  moment.shown - moment.clock.offset.getD 0

def after? (moment : Moment) (period : Period) : Option Moment :=
  let total := moment.shown + period.microseconds
  (Date.ofOrdinal? (Int.fdiv total Period.day)).map fun date =>
    ⟨date, Clock.ofMicroseconds (Int.fmod total Period.day).toNat moment.clock.offset⟩

/-- Whether two moments both carry, or both lack, a distance from universal time. -/
def comparable (left right : Moment) : Bool :=
  left.clock.offset.isSome == right.clock.offset.isSome

/-- A moment with the given sign between its date and its time. -/
def write (separator : Char) (moment : Moment) : List Char :=
  moment.date.write ++ separator :: moment.clock.write

end Moment

end Weave.Calendar
