import Weave.Value.Order

namespace Weave

/-!
# Types of values

What is known about the values of an expression before it is evaluated.  A union of
types is flat and holds every type once; a union with the type of all values is that
type.
-/

/-- The members of a list, each at its first place. -/
def once [BEq α] (items : List α) : List α :=
  items.foldl (fun kept item => if kept.contains item then kept else kept ++ [item]) []

/-- The types; a union stands for the values of all its options. -/
inductive DataType where
  | any
  | text
  | number
  | boolean
  | null
  | binary
  | array (element : DataType)
  /-- Objects with the given fields; open ones may have further fields. -/
  | object (fields : List (String × DataType)) (isOpen : Bool)
  | function (parameters : Nat) (result : DataType)
  | union (options : List DataType)
  deriving Repr, Inhabited

namespace DataType

mutual

def same : DataType → DataType → Bool
  | .any, .any => true
  | .text, .text => true
  | .number, .number => true
  | .boolean, .boolean => true
  | .null, .null => true
  | .binary, .binary => true
  | .array left, .array right => same left right
  | .object left leftOpen, .object right rightOpen =>
    sameFields left right && leftOpen == rightOpen
  | .function left leftResult, .function right rightResult =>
    left == right && same leftResult rightResult
  | .union left, .union right => sameAll left right
  | _, _ => false

/-- Whether two lists of types agree member by member. -/
def sameAll : List DataType → List DataType → Bool
  | [], [] => true
  | left :: lefts, right :: rights => same left right && sameAll lefts rights
  | _, _ => false

/-- Whether two lists of fields agree in names and types. -/
def sameFields : List (String × DataType) → List (String × DataType) → Bool
  | [], [] => true
  | (leftName, left) :: lefts, (rightName, right) :: rights =>
    leftName == rightName && same left right && sameFields lefts rights
  | _, _ => false

end

instance : BEq DataType :=
  ⟨same⟩

def sortedOnce (texts : List String) : List String :=
  (texts.mergeSort fun left right => orderTexts left right != .gt).eraseReps

mutual

/-- A type in words. -/
def describe : DataType → String
  | .any => "Any"
  | .text => "String"
  | .number => "Number"
  | .boolean => "Boolean"
  | .null => "Null"
  | .binary => "Binary"
  | .array element => "Array<" ++ describe element ++ ">"
  | .object fields isOpen =>
    let body := ", ".intercalate (describeFields fields)
    let more := if !isOpen then "" else if fields.isEmpty then "..." else ", ..."
    let parts := [body, more].filter (!·.isEmpty)
    "\x7b " ++ ", ".intercalate parts ++ " \x7d"
  | .function parameters result =>
    "Function(" ++ toString parameters ++ ") -> " ++ describe result
  | .union options => " | ".intercalate (sortedOnce (describeAll options))

def describeAll : List DataType → List String
  | [] => []
  | type :: rest => describe type :: describeAll rest

def describeFields : List (String × DataType) → List String
  | [] => []
  | (name, type) :: rest => (name ++ ": " ++ describe type) :: describeFields rest

end

/-- The type of objects with fields, which are sorted by name. -/
def ofFields (fields : List (String × DataType)) (isOpen : Bool) : DataType :=
  .object (fields.mergeSort fun left right => orderTexts left.1 right.1 != .gt) isOpen

def options : DataType → List DataType
  | .union options => options
  | type => [type]

/-- The union of types, each once. -/
def unionOf (types : List DataType) : DataType :=
  match once (types.flatMap options) with
  | [] => .any
  | [type] => type
  | types => if types.contains .any then .any else .union types

mutual

def isAll (holds : DataType → Bool) : DataType → Bool
  | .union options => areAll holds options
  | type => holds type

def areAll (holds : DataType → Bool) : List DataType → Bool
  | [] => true
  | type :: rest => isAll holds type && areAll holds rest

end

def isText (type : DataType) : Bool :=
  type.isAll (· == .text)

def isNumber (type : DataType) : Bool :=
  type.isAll (· == .number)

def isBoolean (type : DataType) : Bool :=
  type.isAll (· == .boolean)

def isArray (type : DataType) : Bool :=
  type.isAll fun
    | .array _ => true
    | _ => false

/-- The type of arrays whose elements are of either of two types. -/
def mergeArrays (left right : DataType) : DataType :=
  .array (unionOf [left, right])

/-- The fields of two types of objects; a field of both has a type of either. -/
def mergeFields (left right : List (String × DataType)) : List (String × DataType) :=
  let shared := left.map fun (name, type) =>
    match right.lookup name with
    | some other => (name, unionOf [type, other])
    | none => (name, type)
  shared ++ right.filter fun (name, _) => (left.lookup name).isNone

/-- The fields of both objects; they are open if one is. -/
def mergeObjects (left : List (String × DataType)) (leftOpen : Bool)
    (right : List (String × DataType)) (rightOpen : Bool) :
    DataType :=
  ofFields (mergeFields left right) (leftOpen || rightOpen)

end DataType

end Weave
