import Weave.Json.Quoted
import Weave.Value.Order
import Weave.Value.Show

namespace Weave.Json

/-!
# JSON on one line

The JSON text of a value with a blank after every comma and colon.  It stands for
lists and objects inside texts, and it is the key under which equal values are
recognised.  What JSON has no form for is refused, or written as its quoted text.
-/

/-- A number that is no decimal has a word of its own. -/
def float (value : Float) : String :=
  if value.isNaN then "NaN"
  else if Decimal.isUnbounded value then (if value < 0.0 then "-Infinity" else "Infinity")
  else Decimal.write value

/-- An integer; one with more digits than can be read again is refused. -/
def integer (value : Int) : Except Fault String :=
  if Decimal.isLong value then .error (.defect .domain) else .ok (Decimal.writeInt value)

/-- How a value on one line is written. -/
structure InlineStyle where
  asciiOnly : Bool
  sortKeys : Bool
  /-- Whether a value without a JSON form is written as its quoted text. -/
  quoteOthers : Bool

/-- Sort entries by their keys; a missing key has no order among others. -/
def sortEntries (entries : List (Key × α)) : Except Fault (List (Key × α)) :=
  if entries.length > 1 && entries.any (·.1 == .missing) then .error (.defect .operands)
  else
    .ok (entries.mergeSort fun left right => orderTexts left.1.shown right.1.shown != .gt)

def inlineKey (style : InlineStyle) : Key → String
  | .text name => quote style.asciiOnly name
  | .missing => quote style.asciiOnly "null"

mutual

def inline (style : InlineStyle) : Value → Except Fault String
  | .null => .ok "null"
  | .bool value => .ok (if value then "true" else "false")
  | .int value => integer value
  | .float value => .ok (float value)
  | .text value => .ok (quote style.asciiOnly value)
  | .list _ items | .tuple items => do
    return "[" ++ ", ".intercalate (← inlineAll style items) ++ "]"
  | .object _ entries => do
    let parts ← inlineEntries style entries
    let ordered ← if style.sortKeys then sortEntries parts else pure parts
    return "\x7b" ++ ", ".intercalate (ordered.map (·.2)) ++ "\x7d"
  | other =>
    if style.quoteOthers then do return quote style.asciiOnly (← other.toText)
    else .error (.defect .operands)

def inlineAll (style : InlineStyle) : List Value → Except Fault (List String)
  | [] => .ok []
  | item :: rest => do
    let first ← inline style item
    return first :: (← inlineAll style rest)

/-- The JSON texts of all entries, beside their keys. -/
def inlineEntries (style : InlineStyle) :
    List (Key × Value) → Except Fault (List (Key × String))
  | [] => .ok []
  | (key, value) :: rest => do
    let first := inlineKey style key ++ ": " ++ (← inline style value)
    return (key, first) :: (← inlineEntries style rest)

end

/-- The JSON text inside an interpolated string. -/
def plainStyle : InlineStyle :=
  ⟨true, false, false⟩

/-- The JSON text by which equal values are recognised. -/
def markerStyle : InlineStyle :=
  ⟨true, true, true⟩

end Weave.Json
