import Weave.DataType
import Weave.Text.Case

namespace Weave.DataType

/-!
# Inferred types

The type of an expression, found without evaluating it.  What cannot be told has the
type of all values.
-/

/-- The types of the payload, of all variables together, and of single variables. -/
structure Environment where
  payload : DataType
  vars : DataType
  bound : List (String × DataType)

namespace Environment

def lookup (environment : Environment) (name : String) : DataType :=
  if name == "payload" then environment.payload
  else if name == "vars" then environment.vars
  else (environment.bound.lookup name).getD .any

def bind (environment : Environment) (name : String) (type : DataType) : Environment :=
  { environment with bound := setPair environment.bound name type }

end Environment

/-- The type that is written down. -/
def ofSpec : TypeSpec → DataType
  | .mk name generics =>
    match Text.lower name, generics with
    | "string", _ => .text
    | "number", _ => .number
    | "decimal", _ => .number
    | "integer", _ => .number
    | "boolean", _ => .boolean
    | "bool", _ => .boolean
    | "binary", _ => .binary
    | "null", _ => .null
    | "array", element :: _ => .array (ofSpec element)
    | "object", _ => .object [] true
    | _, _ => .any

mutual

/-- The type of a property. -/
def property (name : String) : DataType → DataType
  | .object fields isOpen =>
    (fields.lookup name).getD (if isOpen then .any else .null)
  | .union options => unionOf (properties name options)
  | _ => .any

def properties (name : String) : List DataType → List DataType
  | [] => []
  | type :: rest => property name type :: properties name rest

end

mutual

/-- The type of an indexed item; `isName` tells whether the index is a text. -/
def item (isName : Bool) : DataType → DataType
  | .array element => element
  | .union options => unionOf (items isName options)
  | .object _ isOpen => if isName && !isOpen then .null else .any
  | _ => .any

def items (isName : Bool) : List DataType → List DataType
  | [] => []
  | type :: rest => item isName type :: items isName rest

end

def concatenation (left right : DataType) : DataType :=
  if left.isText && right.isText then .text
  else
    match left, right with
    | .array left, .array right => mergeArrays left right
    | _, _ => .any

def sum (left right : DataType) : DataType :=
  if left.isNumber && right.isNumber then .number else concatenation left right

def constantText? : List Expr → Option String
  | [] => some ""
  | .text value :: rest => (constantText? rest).map (value ++ ·)
  | _ => none

/-- The key that an expression names without being evaluated. -/
def constantKey? : Expr → Option String
  | .text value => some value
  | .name word _ => some word
  | .template parts => constantText? parts
  | _ => none

/-- Fields with one more; a field that comes again has a type of either. -/
def addField (fields : List (String × DataType)) (name : String) (type : DataType) :
    List (String × DataType) :=
  setPair fields name
    (match fields.lookup name with
      | some present => unionOf [present, type]
      | none => type)

/-- Fields with those of a literal that have a constant key. -/
def addFields (named : List (String × DataType)) :
    List (Option String × DataType) → List (String × DataType)
  | [] => named
  | (some name, type) :: rest => addFields (addField named name type) rest
  | (none, _) :: rest => addFields named rest

/-- The type of an object with fields; a field without a constant key leaves the object open. -/
def objectOf (fields : List (Option String × DataType)) : DataType :=
  let named := addFields [] fields
  ofFields named (fields.any (·.1.isNone) || named.isEmpty)

def unionFrom (first : DataType) (rest : List DataType) : DataType :=
  rest.foldl (fun union type => unionOf [union, type]) first

def callOf (environment : Environment) (name : String) (arguments : List DataType) : DataType :=
  match name, arguments with
  | "_binary_plus", [left, right] => sum left right
  | "_binary_concat", [left, right] => concatenation left right
  | "_binary_times", _ => .number
  | "_binary_divide", _ => .number
  | "_binary_eq", _ => .boolean
  | name, _ =>
    match environment.lookup name with
    | .function _ result => result
    | _ => .any

mutual

/-- The type of an expression. -/
def infer (environment : Environment) : Expr → DataType
  | .text _ | .template _ => .text
  | .number _ => .number
  | .boolean _ => .boolean
  | .null => .null
  | .name word _ => environment.lookup word
  | .object fields => objectOf (inferFields environment fields)
  | .list elements =>
    match inferAll environment elements with
    | [] => .array .any
    | first :: rest => .array (unionFrom first rest)
  | .property base selector _ => property selector.text (infer environment base)
  | .index base place =>
    item (isText (infer environment place)) (infer environment base)
  | .call (.name word _) arguments => callOf environment word (inferAll environment arguments)
  | .call _ _ => .any
  | .orElse left right => unionOf [infer environment left, infer environment right]
  | .conditional _ whenTrue whenFalse =>
    unionOf [infer environment whenTrue, infer environment whenFalse]
  | .matching _ cases => unionFrom .null (inferCases environment cases)
  | .lambda parameters _ => .function parameters.length .any
  | .coercion _ target _ => ofSpec target
  | .placeholder _ _ => .any

def inferAll (environment : Environment) : List Expr → List DataType
  | [] => []
  | expr :: rest => infer environment expr :: inferAll environment rest

def inferFields (environment : Environment) :
    List (Expr × Expr) → List (Option String × DataType)
  | [] => []
  | (key, value) :: rest =>
    (constantKey? key, infer environment value) :: inferFields environment rest

def inferCases (environment : Environment) : List (MatchCase Expr) → List DataType
  | [] => []
  | ⟨_, result⟩ :: rest => infer environment result :: inferCases environment rest

end

def ofFunction (declaration : FunctionDecl) : DataType :=
  .function declaration.parameters.length ((declaration.returns.map ofSpec).getD .any)

/-- The type of what a script yields. -/
def ofScript (payload vars : DataType) (script : Script) : DataType :=
  let withFunctions := script.header.functions.foldl
    (fun environment declaration => environment.bind declaration.name (ofFunction declaration))
    (Environment.mk payload vars [])
  let withVariables := script.header.bindings.foldl
    (fun environment declaration =>
      environment.bind declaration.name (infer environment declaration.value))
    withFunctions
  infer withVariables script.body

end Weave.DataType
