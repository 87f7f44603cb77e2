import Weave.Calendar.Clock
import Weave.Decimal.Read

namespace Weave.Calendar

/-!
# Dates and times read from text

The written forms of dates: a year with month and day or with week and weekday,
with or without hyphens; and of times: hours, minutes, seconds and a fraction,
with or without colons, followed by a distance from universal time.
-/

/-- The number that a given count of ASCII digits at the front makes, and the rest. -/
def takeDigits? (count : Nat) (text : List Char) : Option (Nat × List Char) :=
  let digits := text.take count
  if digits.length == count && digits.all Char.isDigit then
    some (Decimal.digitsValue digits, text.drop count)
  else none

/-- The rest after a hyphen, where a hyphen must or must not stand. -/
def hyphen? (wanted : Bool) (text : List Char) : Option (List Char) :=
  match text with
  | '-' :: rest => if wanted then some rest else none
  | rest => if wanted then none else some rest

def firstMonday (year : Nat) : Int :=
  let first : Int := (Date.mk year 1 1).ordinal
  let weekday := Int.fmod (first + 6) 7
  let monday := first - weekday
  if weekday > 3 then monday + 7 else monday

def hasLongYear (year : Nat) : Bool :=
  let first := (Date.mk year 1 1).ordinal % 7
  first == 4 || (first == 3 && isLeapYear year)

def ofWeek? (year week weekday : Nat) : Option Date :=
  if year < 1 || year > 9999 || week < 1 || weekday < 1 || weekday > 7 then none
  else if week > 53 || (week == 53 && !hasLongYear year) then none
  else Date.ofOrdinal? (firstMonday year + (week - 1) * 7 + (weekday - 1))

def checked (date : Date) : Option Date :=
  if date.isValid then some date else none

def readWeek? (year : Nat) (hyphens : Bool) (text : List Char) : Option Date := do
  let (week, rest) ← takeDigits? 2 text
  if rest.isEmpty then
    ofWeek? year week 1
  else
    let rest ← hyphen? hyphens rest
    let (weekday, rest) ← takeDigits? 1 rest
    if rest.isEmpty then ofWeek? year week weekday else none

def Date.read? (text : List Char) : Option Date := do
  let (year, rest) ← takeDigits? 4 text
  let (hyphens, rest) :=
    match rest with
    | '-' :: rest => (true, rest)
    | rest => (false, rest)
  match rest with
  | 'W' :: rest => readWeek? year hyphens rest
  | rest =>
    let (month, rest) ← takeDigits? 2 rest
    let rest ← hyphen? hyphens rest
    let (day, rest) ← takeDigits? 2 rest
    if rest.isEmpty then checked ⟨year, month, day⟩ else none

/-- The parts of a time as they are read, and whether anything stands behind them. -/
structure ClockParts where
  hour : Nat
  minute : Nat
  second : Nat
  microsecond : Nat
  hasMore : Bool

/-- The microseconds of a fraction, and whether anything stands behind its digits; digits beyond
the sixth are ignored. -/
def readFraction? (text : List Char) : Option (Nat × Bool) := do
  let count := min 6 text.length
  let (value, rest) ← takeDigits? count text
  return (value * Decimal.tenTo (6 - count), !(rest.dropWhile Char.isDigit).isEmpty)

/-- What is read of a time behind some of its parts. -/
inductive ClockRest where
  /-- Nothing, or a single character. -/
  | done (hasMore : Bool)
  | part (text : List Char)
  | fraction (text : List Char)

/-- What stands behind a part of a time: colons separate the parts if one follows the hour. -/
def behindPart? (colons : Bool) : List Char → Option ClockRest
  | [] => some (.done false)
  | [_] => some (.done true)
  | mark :: rest =>
    if colons && mark == ':' then some (.part rest)
    else if mark == '.' || mark == ',' then some (.fraction rest)
    else if colons then none
    else some (.part (mark :: rest))

/-- Read the parts of a time.  A third part is followed by a fraction, with or without a mark. -/
def readClockParts? (text : List Char) : Option ClockParts := do
  let (hour, rest) ← takeDigits? 2 text
  let colons := rest.head? == some ':'
  match ← behindPart? colons rest with
  | .done hasMore => return ⟨hour, 0, 0, 0, hasMore⟩
  | .fraction rest =>
    let (fraction, hasMore) ← readFraction? rest
    return ⟨hour, 0, 0, fraction, hasMore⟩
  | .part rest =>
    let (minute, rest) ← takeDigits? 2 rest
    match ← behindPart? colons rest with
    | .done hasMore => return ⟨hour, minute, 0, 0, hasMore⟩
    | .fraction rest =>
      let (fraction, hasMore) ← readFraction? rest
      return ⟨hour, minute, 0, fraction, hasMore⟩
    | .part rest =>
      let (second, rest) ← takeDigits? 2 rest
      match ← behindPart? colons rest with
      | .done hasMore => return ⟨hour, minute, second, 0, hasMore⟩
      | .fraction rest | .part rest =>
        let (fraction, hasMore) ← readFraction? rest
        return ⟨hour, minute, second, fraction, hasMore⟩

def startsOffset (character : Char) : Bool :=
  character == '+' || character == '-' || character == 'Z'

/-- The microseconds of a distance, which is less than a day; below a second there is none. -/
def distanceOf? (parts : ClockParts) : Option Int :=
  let seconds := (parts.hour * 60 + parts.minute) * 60 + parts.second
  let distance := if seconds == 0 then 0 else seconds * 1000000 + parts.microsecond
  if (distance : Int) < Period.day then some distance else none

def readOffset? (text : List Char) : Option (Option Int) := do
  match text with
  | [] => return none
  | ['Z'] => return some 0
  | sign :: rest =>
    if sign == 'Z' then none
    else
      let parts ← readClockParts? rest
      let distance ← distanceOf? parts
      if parts.hasMore then none
      else return some (if sign == '-' then -distance else distance)

/-- Read a whole text as a time of day.  In front of a distance from universal time, what stands
behind the last part is ignored. -/
def Clock.read? (text : List Char) : Option Clock := do
  let parts ← readClockParts? (text.takeWhile fun character => !startsOffset character)
  let offset ← readOffset? (text.dropWhile fun character => !startsOffset character)
  let clock : Clock := ⟨parts.hour, parts.minute, parts.second, parts.microsecond, offset⟩
  if (parts.hasMore && offset.isNone) || !clock.isValid then none else some clock

def dateLength (text : List Char) : Nat :=
  let digitAt (index : Nat) : Bool := ((text.drop index).head?.map Char.isDigit).getD false
  let at? (index : Nat) : Option Char := (text.drop index).head?
  if text.length == 7 then 7
  else if at? 4 == some '-' then
    if at? 5 == some 'W' then
      if at? 8 == some '-' then (if digitAt 10 then 8 else 10) else 8
    else 10
  else if at? 4 == some 'W' then
    let stop := 7 + ((text.drop 7).takeWhile Char.isDigit).length
    if stop < 9 then stop else if stop % 2 == 0 then 7 else 8
  else 8

/-- A text with every character repeated as often as it takes bytes, so that counting characters
counts bytes. -/
def widened (text : List Char) : List Char :=
  text.flatMap fun character => List.replicate character.utf8Size character

/-- Read a whole text as a date and a time, with any character between them; without a time it is
midnight. -/
def Moment.read? (text : List Char) : Option Moment := do
  let text := widened text
  if text.length < 7 then none
  else
    let length := dateLength text
    let date ← Date.read? (text.take length)
    match text.drop length with
    | [] => return ⟨date, .midnight⟩
    | separator :: rest =>
      return ⟨date, ← Clock.read? (rest.drop (separator.utf8Size - 1))⟩

end Weave.Calendar
