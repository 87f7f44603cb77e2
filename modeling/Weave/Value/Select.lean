import Weave.Text.Search
import Weave.Value.Convert

namespace Weave

/-!
# Parts of values

What selectors and indices pick out of a value.  On a list a selector asks every item
and collects what it finds.
-/

namespace Calendar

/-- The parts of a date that can be selected. -/
def Date.part? (date : Date) : String → Option Nat
  | "year" => some date.year
  | "month" => some date.month
  | "day" => some date.day
  | _ => none

/-- The parts of a time that can be selected. -/
def Clock.part? (clock : Clock) : String → Option Nat
  | "hour" => some clock.hour
  | "minute" => some clock.minute
  | "second" => some clock.second
  | _ => none

end Calendar

namespace Value

/-- A part of a date or a time as a value. -/
def partNumber (number : Nat) : Value :=
  .int number

/-- The part of a date or a time that has a name. -/
def part? (name : String) : Value → Option Value
  | .date day => (day.part? name).map partNumber
  | .clock time => (time.part? name).map partNumber
  | .moment point => ((point.date.part? name).or (point.clock.part? name)).map partNumber
  | _ => none

end Value

namespace Function

/-- The names of the parts of functions of a sort. -/
def partNames : Function → List String
  | .lambda .. => ["runtime", "parameters", "body", "closure_variables", "payload", "header"]
  | .implicit .. =>
    ["runtime", "body", "closure_variables", "payload", "header", "placeholders", "parameters"]
  | .declared .. => ["runtime", "parameters", "body", "context", "return_type"]
  | .overloaded _ => ["runtime", "functions", "add", "_matches"]
  | .builtin _ | .plus .. | .dispatch _ => []

/-- Whether a function may have a part of a name; what the part is is left open. -/
def hasPart (callee : Function) (name : String) : Bool :=
  callee.partNames.contains name || Text.startsWith name.toList ['_', '_']

end Function

namespace Value

/-- What a list of findings amounts to: nothing, the only one, or all. -/
def collected : List Value → Value
  | [] => .null
  | [found] => found
  | found => .array found

/-- The first of the elements that an XML list repeats, or the value itself. -/
def firstElement : Value → Value
  | .list .xml [] => .null
  | .list .xml (first :: _) => first
  | value => value

/-- The value under a name, or null. -/
def entry (entries : Entries) (name : String) : Value :=
  (Entries.find? entries (.text name)).getD .null

/-- What a finding adds to a collection: null adds nothing and a list adds its items. -/
def findings : Value → List Value
  | .null => []
  | .list _ items => items
  | value => [value]

/-- What an object holds under a name, or all it holds. -/
def everyIn (name : String) : Value → List Value
  | .object _ entries =>
    if name.isEmpty then
      entries.flatMap fun (_, value) =>
        match value with
        | .list _ items => items
        | other => [other]
    else findings (entry entries name)
  | _ => []

/-- All values under a name, in an object or in the objects of a list. -/
def every (name : String) : Value → Value
  | .null => .null
  | .list _ items => .array (items.flatMap (everyIn name))
  | value => .array (everyIn name value)

/-- What a selector without a finding amounts to: null for an attribute, else a fault. -/
def lacking (name : String) (isAttribute : Bool) (kind : String) : Except Fault Value :=
  if isAttribute then .ok .null else .error (.mismatch (.noAttribute name kind))

mutual

/-- The value that a plain selector picks; `attribute` tells whether it asks for an attribute. -/
def pick (name : String) (isAttribute : Bool) : Value → Except Fault Value
  | .null => .ok .null
  | .list _ items => do return collected (← pickAll name isAttribute items)
  | .object _ entries =>
    .ok (if isAttribute then entry entries name else firstElement (entry entries name))
  | .function callee =>
    if callee.hasPart name then .error .unspecified else lacking name isAttribute callee.kindName
  | value =>
    match value.part? name with
    | some part => .ok part
    | none => lacking name isAttribute value.kindName

/-- What a plain selector finds in all items of a list. -/
def pickAll (name : String) (isAttribute : Bool) : List Value → Except Fault (List Value)
  | [] => .ok []
  | item :: rest => do
    let found ← pick name isAttribute item
    return findings found ++ (← pickAll name isAttribute rest)

end

/-- What a selector picks from a value. -/
def select (selector : Selector) (value : Value) : Except Fault Value :=
  match selector with
  | .every name => .ok (every name value)
  | .key name => pick name false value
  | .attribute name => pick ("@" ++ name) true value

/-- The item at a place, counted from the end below zero. -/
def atPlace? (items : List Value) (place : Int) : Option Value :=
  let index := if place < 0 then place + items.length else place
  if index < 0 then none else items[index.toNat]?

/-- The integer that a value is. -/
def place? : Value → Option Int
  | .int value => some value
  | .bool value => some (if value then 1 else 0)
  | _ => none

/-- What an index picks out of a value; null if there is nothing. -/
def pickAt (value index : Value) : Except Fault Value :=
  match value with
  | .list _ items | .tuple items =>
    match index.toInt with
    | .ok place => .ok (if place < 0 then .null else (items[place.toNat]?).getD .null)
    | .error fault => if fault.isKindFault || fault.isDomainFault then .ok .null else .error fault
  | .object _ entries => do return entry entries (← index.toText)
  | .text written => .ok (((place? index).bind (atPlace? (characters written))).getD .null)
  | .bytes data | .buffer data =>
    .ok (((place? index).bind (atPlace? (byteNumbers data))).getD .null)
  | _ => .ok .null

/-- Whether a value matches a pattern; a list of one XML element matches as the element does. -/
def matchesValue (value pattern : Value) : Bool :=
  value == pattern ||
    match value with
    | .list .xml [only] => only == pattern
    | _ => false

end Value

end Weave
