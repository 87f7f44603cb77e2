import Weave.Decimal.Read
import Weave.Text.Quoted
import Weave.Value.Kind

namespace Weave

/-!
# Values as text

Two texts of a value: the plain one, in which a text is itself, and the one inside
lists and objects, in which texts stand between quotes and dates are spelled out.  A
value that holds an integer with too many digits has neither, and the texts of functions
are left open.
-/

namespace Calendar

/-- A part of the calendar written out. -/
def spelled (name : String) (parts : List String) : String :=
  "datetime." ++ name ++ "(" ++ ", ".intercalate parts ++ ")"

/-- A period written out. -/
def Period.spell (period : Period) : String :=
  let part (name : String) (value : Int) : List String :=
    if value == 0 then [] else [name ++ "=" ++ Decimal.writeInt value]
  let parts :=
    part "days" period.days ++ part "seconds" period.seconds ++
      part "microseconds" period.fraction
  spelled "timedelta" (if parts.isEmpty then ["0"] else parts)

/-- The argument for a distance from universal time. -/
def spellOffset : Option Int → List String
  | none => []
  | some offset =>
    let zone :=
      if offset == 0 then "datetime.timezone.utc"
      else spelled "timezone" [Period.spell ⟨offset⟩]
    ["tzinfo=" ++ zone]

/-- The parts of a time of day; the parts that are zero at its end are left out. -/
def Clock.spellParts (clock : Clock) : List String :=
  let seconds :=
    if clock.microsecond != 0 then [toString clock.second, toString clock.microsecond]
    else if clock.second != 0 then [toString clock.second]
    else []
  [toString clock.hour, toString clock.minute] ++ seconds ++ spellOffset clock.offset

/-- The parts of a date as arguments. -/
def Date.spellParts (date : Date) : List String :=
  [toString date.year, toString date.month, toString date.day]

end Calendar

namespace Key

def shown : Key → String
  | .text name => name
  | .missing => "None"

def quoted : Key → String
  | .text name => Text.Quoted.ofText name
  | .missing => "None"

end Key

namespace Value

/-- A truth value written out. -/
def truthWord (value : Bool) : String :=
  if value then "True" else "False"

mutual

def quoted : Value → String
  | .null => "None"
  | .bool value => truthWord value
  | .int value => Decimal.writeInt value
  | .float value => Decimal.write value
  | .text value => Text.Quoted.ofText value
  | .bytes data => Text.Quoted.ofBytes data
  | .buffer data => "bytearray(" ++ Text.Quoted.ofBytes data ++ ")"
  | .list _ items => "[" ++ ", ".intercalate (quotedAll items) ++ "]"
  | .tuple [item] => "(" ++ quoted item ++ ",)"
  | .tuple items => "(" ++ ", ".intercalate (quotedAll items) ++ ")"
  | .object _ entries => "\x7b" ++ ", ".intercalate (quotedEntries entries) ++ "\x7d"
  | .date day => Calendar.spelled "date" day.spellParts
  | .clock time => Calendar.spelled "time" time.spellParts
  | .moment point =>
    Calendar.spelled "datetime" (point.date.spellParts ++ point.clock.spellParts)
  | .period span => span.spell
  | .function _ => "function"

/-- Values written out one by one. -/
def quotedAll : List Value → List String
  | [] => []
  | item :: rest => quoted item :: quotedAll rest

/-- All entries of an object as they stand inside it. -/
def quotedEntries : List (Key × Value) → List String
  | [] => []
  | (key, value) :: rest => (key.quoted ++ ": " ++ quoted value) :: quotedEntries rest

end

/-- The plain text of a value, whatever integers it holds. -/
def shown : Value → String
  | .text value => value
  | .date day => String.ofList day.write
  | .clock time => String.ofList time.write
  | .moment point => String.ofList (point.write ' ')
  | .period span => String.ofList span.write
  | value => value.quoted

/-- Whether a value is an integer with too many digits to be written. -/
def isLongInteger : Value → Bool
  | .int value => Decimal.isLong value
  | _ => false

/-- A text of a value, which it has unless it holds an integer that cannot be written or a
function. -/
def legibly (value : Value) (text : String) : Except Fault String :=
  if value.holds isLongInteger then .error (.defect .domain)
  else if value.holds isFunction then .error .unspecified
  else .ok text

/-- The plain text of a value. -/
def toText (value : Value) : Except Fault String :=
  value.legibly value.shown

@[simp]
theorem toText_text (text : String) : (Value.text text).toText = .ok text :=
  rfl

/-- A value as a message shows it. -/
def preview : Value → Except Fault String
  | .text value => .ok ("\"" ++ value ++ "\"")
  | .bool value => .ok (if value then "true" else "false")
  | .null => .ok "null"
  | value => value.toText

end Value

end Weave
