import Weave.DataType
import Weave.Text.Case

namespace Weave

/-!
# Schemas

Types of values as schemas that another program can check its input with.  Every type of
objects becomes a model with a name of its own; equal types of objects share the model
that was made first.
-/

/-- Schemas; models are numbered in the order in which they are made. -/
inductive Schema where
  | any
  | text
  | number
  | boolean
  | null
  | binary
  | list (element : Schema)
  | union (options : List Schema)
  | model (index : Nat) (name : String) (isOpen : Bool) (fields : List (String × Schema × Bool))
  deriving Repr, Inhabited

namespace Schema

mutual

/-- Whether two schemas are equal: models when they are the same model, unions in any order. -/
def same : Schema → Schema → Bool
  | .any, .any => true
  | .text, .text => true
  | .number, .number => true
  | .boolean, .boolean => true
  | .null, .null => true
  | .binary, .binary => true
  | .list left, .list right => same left right
  | .union left, .union right => left.length == right.length && areIn right left
  | .model left _ _ _, .model right _ _ _ => left == right
  | _, _ => false

def areIn (others : List Schema) : List Schema → Bool
  | [] => true
  | schema :: rest => others.any (fun other => same schema other) && areIn others rest

end

instance : BEq Schema :=
  ⟨same⟩

def options : Schema → List Schema
  | .union options => options
  | schema => [schema]

/-- The schema for one of several. -/
def unionOf : List Schema → Except Fault Schema
  | [] => .error (.defect .operands)
  | schemas =>
    match once (schemas.flatMap options) with
    | [schema] => .ok schema
    | schemas => .ok (.union schemas)

def optional (schema : Schema) : Except Fault Schema :=
  unionOf [schema, .null]

def nullLast (schemas : List Schema) : Except Fault Schema :=
  if schemas.contains .null then
    match schemas.filter (· != .null) with
    | [] => .ok .null
    | others => do optional (← unionOf others)
  else unionOf schemas

end Schema

/-- The models made so far, under the types of objects they were made for. -/
abbrev Models := List (DataType × Schema)

namespace DataType

mutual

def allowsNull : DataType → Bool
  | .null => true
  | .union options => someAllowsNull options
  | _ => false

def someAllowsNull : List DataType → Bool
  | [] => false
  | type :: rest => allowsNull type || someAllowsNull rest

end

def fieldModelName (model field : String) : String :=
  model ++ "_" ++ Text.capitalized field

/-- Names that no field of a model can have: they are kept for what a model is made with. -/
def reservedNames : List String :=
  ["__base__", "__module__", "__config__"]

/-- The schema of a field with a type and its schema. -/
def fieldSchema (type : DataType) (schema : Schema) : Except Fault Schema :=
  if type.allowsNull then schema.optional else .ok schema

mutual

/-- The schema of a type; models are named after the place of the type. -/
def schemaOf (name : String) : DataType → Models → Except Fault (Schema × Models)
  | .any, models => .ok (.any, models)
  | .text, models => .ok (.text, models)
  | .number, models => .ok (.number, models)
  | .boolean, models => .ok (.boolean, models)
  | .null, models => .ok (.null, models)
  | .binary, models => .ok (.binary, models)
  | .array element, models => do
    let (schema, models) ← schemaOf (name ++ "Item") element models
    return (.list schema, models)
  | .object fields isOpen, models =>
    match models.find? fun entry => entry.1 == .object fields isOpen with
    | some (_, model) => .ok (model, models)
    | none => do
      let (schemas, models) ← fieldSchemas name fields models
      if fields.any (reservedNames.contains ·.1) then
        throw (.defect .operands)
      let model := Schema.model models.length name isOpen schemas
      return (model, models ++ [(.object fields isOpen, model)])
  | .function _ _, models => .ok (.any, models)
  | .union options, models => do
    let (schemas, models) ← schemasOf name options models
    return (← Schema.nullLast schemas, models)

def schemasOf (name : String) : List DataType → Models → Except Fault (List Schema × Models)
  | [], models => .ok ([], models)
  | type :: rest, models => do
    let (first, models) ← schemaOf name type models
    let (others, models) ← schemasOf name rest models
    return (first :: others, models)

def fieldSchemas (name : String) :
    List (String × DataType) → Models →
      Except Fault (List (String × Schema × Bool) × Models)
  | [], models => .ok ([], models)
  | (field, type) :: rest, models => do
    let (schema, models) ← schemaOf (fieldModelName name field) type models
    let schema ← fieldSchema type schema
    let (others, models) ← fieldSchemas name rest models
    return ((field, schema, !type.allowsNull) :: others, models)

end

/-- The schema of a type. -/
def toSchema (name : String) (type : DataType) : Except Fault Schema := do
  return (← schemaOf name type []).1

def modelName : String := "DataWeaveModel"

def outputModelName : String := "DataWeaveOutput"

end DataType

end Weave
