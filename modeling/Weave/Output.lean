import Weave.Format
import Weave.Text.Arguments
import Weave.Value.Collapse

namespace Weave

/-!
# The output of a script

A directive of the header names the format in which the result is written, and the
properties of its writer.
-/

/-- What the directive of a header asks for. -/
structure OutputDirective where
  mediaType : String
  format : Format
  properties : Options

namespace OutputDirective

/-- The value of a property: a truth value, a number or a text. -/
def propertyValue (written : String) : Except Fault Value :=
  if written.isEmpty then .ok (.text "")
  else
    match Text.Escape.decode written.toList with
    | none => .error (.defect .undecodable)
    | some characters =>
      let text := String.ofList characters
      let word := Text.lower text
      if word == "true" then .ok (.bool true)
      else if word == "false" then .ok (.bool false)
      else if characters.contains '.' then
        .ok (((Decimal.readFloat? characters).map Value.float).getD (.text text))
      else .ok (((Decimal.readInt? characters).map Value.int).getD (.text text))

/-- The property that an argument sets; one without a value is set to true. -/
def property (argument : String) : Except Fault (Key × Value) :=
  match Text.cutAt? ['='] argument.toList with
  | none => .ok (.text argument, .bool true)
  | some (name, value) => do
    return (.text (String.ofList name), ← propertyValue (String.ofList value))

def propertiesOf (arguments : List String) : Except Fault Options := do
  return Entries.ofList (← arguments.mapM property)

def named (mediaType : Option String) (name : String) (arguments : List String) :
    Except Fault OutputDirective :=
  match Format.named? name with
  | none => .error (.refused (.unsupportedOutput name) none)
  | some format => do
    return ⟨mediaType.getD format.mediaType, format, ← propertiesOf arguments⟩

def ofArguments : List String → Except Fault (Option OutputDirective)
  | [] => .ok none
  | first :: rest => do
    let isWriter := (rest.head?.map fun word => Text.lower word == "with").getD false
    match isWriter, rest with
    | true, [_] => throw (.refused .missingWriter none)
    | true, _ :: name :: arguments => return some (← named (some first) name arguments)
    | _, arguments =>
      let mediaType := if first.toList.contains '/' then some first else none
      return some (← named mediaType first arguments)

/-- Read what the header says about output. -/
def parse : Option String → Except Fault (Option OutputDirective)
  | none | some "" => .ok none
  | some written =>
    match Text.arguments? written with
    | none => .error (.refused (.badDirective written) none)
    | some arguments => ofArguments arguments

/-- A value as a directive asks for it; without a writer it is left as it is. -/
def render (directive : Option OutputDirective) (value : Value) : Except Fault Value :=
  match directive with
  | none => .ok value
  | some directive =>
    match directive.format.write directive.properties value with
    | .ok written => .ok written
    | .error fault => .error (.refused (.format fault) none)

/-- The result of a script: written as its directive asks, or a plain value. -/
def finish (directive : Option OutputDirective) (value : Value) : Except Fault Value :=
  match directive with
  | none | some ⟨_, .native, _⟩ => value.unmarked
  | some directive => render (some directive) value

end OutputDirective

end Weave
