import Weave.Json.Inline

namespace Weave

/-!
# Values read as something else

A value as a float, as an integer, as the sequence of its items, and as the mark by
which equal values are recognised.
-/

namespace Key

/-- A key as a value; a missing one is null. -/
def toValue : Key → Value
  | .text name => .text name
  | .missing => .null

/-- The key that a value can be. -/
def ofValue? : Value → Option Key
  | .text name => some (.text name)
  | .null => some .missing
  | _ => none

end Key

/-- Bytes as the characters of a numeral; bytes beyond ASCII are in none. -/
def numeralOf (data : List UInt8) : List Char :=
  data.map fun byte => if byte < 128 then Char.ofNat byte.toNat else '�'

/-- The number a text must be. -/
def requireNumeral : Option α → Except Fault α
  | some value => .ok value
  | none => .error (.defect .domain)

namespace Value

/-- A value as a float; texts are read as numerals. -/
def toFloat : Value → Except Fault Float
  | .text value => requireNumeral (Decimal.readFloat? value.toList)
  | .bytes data | .buffer data => requireNumeral (Decimal.readFloat? (numeralOf data))
  | value =>
    match value.number? with
    | some number => number.toFloat
    | none => .error (.defect .operands)

/-- A value as an integer; floats lose their fraction and texts are read as numerals. -/
def toInt : Value → Except Fault Int
  | .text value => requireNumeral (Decimal.readInt? value.toList)
  | .bytes data | .buffer data => requireNumeral (Decimal.readInt? (numeralOf data))
  | value =>
    match value.number? with
    | some (.int number) => .ok number
    | some (.float number) => Number.truncate number
    | none => .error (.defect .operands)

/-- A value as a float; the texts of values that are no numbers are read as numerals. -/
def toNumeral (value : Value) : Except Fault Float :=
  match value.number? with
  | some number => number.toFloat
  | none => requireNumeral (Decimal.readFloat? (value.toText.toOption.getD "").toList)

/-- The characters of a text as texts. -/
def characters (text : String) : List Value :=
  text.toList.map fun character => .text (String.singleton character)

/-- Bytes as integers. -/
def byteNumbers (data : List UInt8) : List Value :=
  data.map fun byte => .int byte.toNat

/-- The items of a sequence: null has none, an object has its values. -/
def items : Value → Except Fault (List Value)
  | .null => .ok []
  | .list _ items | .tuple items => .ok items
  | .object _ entries => .ok (entries.map (·.2))
  | .text value => .ok (characters value)
  | .bytes data | .buffer data => .ok (byteNumbers data)
  | _ => .error (.defect .operands)

/-- The members of a collection: an object has its keys, and null is no collection. -/
def members : Value → Except Fault (List Value)
  | .null => .error (.defect .operands)
  | .object _ entries => .ok (entries.map (·.1.toValue))
  | value => value.items

/-- The mark by which equal values are recognised: plain values are their own, others are their
JSON text, or their quoted text where JSON has no form for them. -/
def marker (value : Value) : Except Fault Value :=
  match value with
  | .null | .bool _ | .int _ | .float _ | .text _ => .ok value
  | value => do
    return .text (← tryCatch (Json.inline Json.markerStyle value) fun fault =>
      if fault.isKindFault then value.legibly value.quoted else throw fault)

/-- The name of the group that a value asks for. -/
def groupKey (value : Value) : Except Fault String := do
  (← value.marker).toText

end Value

/-- Whether a function can be a member of a set. -/
def Function.isMember : Function → Bool
  | .builtin _ | .plus .. | .dispatch _ => true
  | .lambda .. | .implicit .. | .declared .. | .overloaded _ => false

mutual

/-- Whether a value can be a member of a set. -/
def Value.isMember : Value → Bool
  | .list .. | .object .. | .buffer _ => false
  | .tuple items => areMembers items
  | .function callee => callee.isMember
  | _ => true

/-- Whether all values can be members of a set. -/
def areMembers : List Value → Bool
  | [] => true
  | item :: rest => item.isMember && areMembers rest

end

/-- Refuse a value that cannot be a member of a set. -/
def Value.requireMember (value : Value) : Except Fault Unit :=
  if value.isMember then .ok () else .error (.defect .operands)

end Weave
