import Weave.Text.Case
import Weave.Text.Search
import Weave.Value.Convert

namespace Weave

/-!
# Coercions

Values turned into values of a wanted type, the text of a value inside a template, and
whether a value is of a type.
-/

namespace Value

/-- A truth value as text. -/
def truthText (value : Bool) : String :=
  if value then "true" else "false"

/-- A value inside an interpolated string; lists and objects are written as JSON. -/
def interpolated : Value → Except Fault String
  | .null => .ok ""
  | .bool value => .ok (truthText value)
  | .list origin items => Json.inline Json.plainStyle (.list origin items)
  | .object origin entries => Json.inline Json.plainStyle (.object origin entries)
  | value => value.toText

/-- A value inside a template that is read when it is evaluated. -/
def embedded : Value → Except Fault String
  | .null => .ok ""
  | .bool value => .ok (truthText value)
  | value => value.toText

/-- A float, as an integer if it is one. -/
def simpleNumber (value : Float) : Value :=
  .ofNumber (Number.simplify value)

/-- A value as a number. -/
def coerceNumber : Value → Except Fault Value
  | .null => .ok .null
  | .bool value => .ok (.int (if value then 1 else 0))
  | .int value => do
    let _ ← (Number.int value).toFloat
    return .int value
  | .float value => .ok (simpleNumber value)
  | .text value =>
    let text := Text.trim value.toList
    if text.isEmpty then .ok .null
    else
      match Decimal.readFloat? text with
      | some number => .ok (simpleNumber number)
      | none => .error (.mismatch (.uncoercibleText value "Number"))
  | value => .error (.mismatch (.uncoercible value.kindName "Number"))

/-- A value as a text; null stays null. -/
def coerceText : Value → Except Fault Value
  | .null => .ok .null
  | .bool value => .ok (.text (truthText value))
  | value => do return .text (← value.toText)

/-- The words that are true. -/
def trueWords : List String :=
  ["true", "yes", "1"]

/-- The words that are false. -/
def falseWords : List String :=
  ["false", "no", "0", ""]

/-- A value as a truth value. -/
def coerceBoolean : Value → Except Fault Value
  | .null => .ok .null
  | .text value =>
    let word := Text.lower (Text.trimmed value)
    if trueWords.contains word then .ok (.bool true)
    else if falseWords.contains word then .ok (.bool false)
    else .error (.mismatch (.uncoercibleText value "Boolean"))
  | value => .ok (.bool value.isTruthy)

/-- A value as bytes. -/
def coerceBinary : Value → Except Fault Value
  | .null => .ok (.bytes [])
  | .bytes data | .buffer data => .ok (.bytes data)
  | .text value => .ok (.bytes value.toUTF8.toList)
  | value => .error (.mismatch (.uncoercible value.kindName "Binary"))

/-- Entries with texts for keys. -/
def textKeyed (entries : Entries) : Entries :=
  Entries.ofList (entries.map fun (key, value) => (.text key.shown, value))

/-- The items of a value, each coerced. -/
def coerceArray (item : Value → Except Fault Value) (value : Value) : Except Fault Value := do
  return .array (← (← value.items).mapM item)

/-- The entries of an object, each coerced. -/
def coerceObject (item : Value → Except Fault Value) : Value → Except Fault Value
  | .object _ entries => do
    let coerced ← entries.mapM fun (key, value) => do return (key, ← item value)
    return .record (textKeyed coerced)
  | value => .error (.mismatch (.uncoercible value.kindName "Object"))

/-- The forms that values are brought into. -/
inductive Form where
  | null
  | number
  | text
  | boolean
  | binary
  | array
  | object
  /-- The form that every value has. -/
  | any
  deriving Repr, DecidableEq

/-- The form that the name of a type, in lower case, asks for. -/
def Form.named : String → Form
  | "null" => .null
  | "number" => .number
  | "string" | "date" | "datetime" => .text
  | "boolean" | "bool" => .boolean
  | "binary" => .binary
  | "array" => .array
  | "object" => .object
  | _ => .any

/-- What null becomes: a list or an object of nothing, or null. -/
def coerceNull : Form → Value
  | .array => .array []
  | .object => .record []
  | _ => .null

/-- A value in a form, its parts coerced by a function. -/
def coerceTo (form : Form) (item : Value → Except Fault Value) (value : Value) :
    Except Fault Value :=
  if value.isNull then .ok (coerceNull form)
  else
    match form with
    | .null => .ok .null
    | .number => coerceNumber value
    | .text => coerceText value
    | .boolean => coerceBoolean value
    | .binary => coerceBinary value
    | .array => coerceArray item value
    | .object => coerceObject item value
    | .any => .ok value

mutual

/-- A value as one of a type. -/
def coerce : TypeSpec → Value → Except Fault Value
  | .mk name generics, value =>
    let target := Text.lower (Text.trimmed (if name.isEmpty then "Any" else name))
    coerceTo (.named target) (coerceFirst generics) value

/-- A value as one of the first type, if there is one. -/
def coerceFirst : List TypeSpec → Value → Except Fault Value
  | [], value => .ok value
  | spec :: _, value => coerce spec value

end

/-- Whether a value may be given for a parameter with a type. -/
def fits (value : Value) : Option TypeSpec → Bool
  | none => true
  | some spec =>
    match Text.lower spec.name with
    | "null" => value.isNull
    | "object" => value.isObject
    | "array" => value.isList
    | "string" => value.isText
    | "number" => value.number?.isSome
    | "boolean" => value.isBool
    | _ => true

/-- Whether a value is of the type that a module names. -/
def fitsName (value : Value) (spec : String) : Bool :=
  let name := Text.lower spec
  if name == "null" then value.isNull
  else if Text.contains spec.toList "->".toList || name == "function" then value.isFunction
  else if ["boolean", "bool"].contains name then value.isBool
  else if ["number", "integer", "double", "long", "byte"].contains name then
    value.number?.isSome && !value.isBool
  else if ["string", "key"].contains name then value.isText
  else if Text.startsWith name.toList "array".toList then
    value.isList ||
      match value with
      | .tuple _ => true
      | _ => false
  else if Text.contains name.toList "object".toList then value.isObject
  else if name == "binary" then value.isBinary
  else true

/-- Whether a value is of a type that a module names; bars separate alternatives. -/
def fitsNames (value : Value) (spec : String) : Bool :=
  let spec := Text.trimmed spec
  if spec.isEmpty || ["any", "nothing"].contains (Text.lower spec) then true
  else
    let parts := ((Text.splitString "|" spec).map Text.trimmed).filter (!·.isEmpty)
    (if parts.isEmpty then [spec] else parts).any value.fitsName

end Value

end Weave
