import Weave.Builtin
import Weave.Calendar.Clock
import Weave.Script

namespace Weave

/-!
# Values

The values that expressions compute.  Objects keep their entries in order; two
entries never share a key.  Lists and objects that come from XML elements are
marked, because selectors and writers treat them differently.
-/

/-- The key of an entry; the surplus cells of a table row have none. -/
inductive Key where
  | text (name : String)
  | missing
  deriving Repr, DecidableEq

/-- Whether an entry holds an attribute of an XML element. -/
def isAttributeName (name : String) : Bool :=
  name.toList.head? == some '@'

/-- The name of the entry that holds the text of an XML element. -/
def textEntry : String := "#text"

/-- Where a list or an object comes from. -/
inductive Origin where
  | data
  | xml
  deriving Repr, DecidableEq

mutual

/-- The values of the language. -/
inductive Value where
  | null
  | bool (value : Bool)
  | int (value : Int)
  | float (value : Float)
  | text (value : String)
  | bytes (data : List UInt8)
  /-- Bytes in a form that can still be changed outside the language. -/
  | buffer (data : List UInt8)
  | list (origin : Origin) (items : List Value)
  | tuple (items : List Value)
  | object (origin : Origin) (entries : List (Key × Value))
  | date (date : Calendar.Date)
  | clock (clock : Calendar.Clock)
  | moment (moment : Calendar.Moment)
  | period (period : Calendar.Period)
  | function (function : Function)

/-- What can be called. -/
inductive Function where
  | builtin (builtin : Builtin)
  /-- The sum, with the line and the column its errors point at. -/
  | plus (line column : Nat)
  /-- A lambda with the variables and the payload of the place it was written in. -/
  | lambda (parameters : List (Parameter Expr)) (body : Expr) (captured : List (String × Value))
      (payload : Value)
  /-- An expression with placeholders in the place of a function. -/
  | implicit (body : Expr) (captured : List (String × Value)) (payload : Value) (usesSecond : Bool)
  /-- A function of a header, which sees the variables of that header. -/
  | declared (frame : Nat) (declaration : FunctionDecl)
  | overloaded (alternatives : List (Nat × FunctionDecl))
  /-- Functions of a module with the same name, each with the types its arguments must have. -/
  | dispatch (alternatives : List (Option (List (Option String)) × Function))

end

namespace Value

instance : Inhabited Value :=
  ⟨.null⟩

/-- A list that does not come from XML. -/
abbrev array (items : List Value) : Value :=
  .list .data items

/-- An object that does not come from XML. -/
abbrev record (entries : List (Key × Value)) : Value :=
  .object .data entries

end Value

/-- Set the value under a key; a key that is there keeps its place. -/
def setPair {κ υ : Type} [DecidableEq κ] : List (κ × υ) → κ → υ → List (κ × υ)
  | [], key, value => [(key, value)]
  | (present, old) :: rest, key, value =>
    if present = key then (present, value) :: rest else (present, old) :: setPair rest key value

/-- The entries of an object, in the order in which their keys were first set. -/
abbrev Entries := List (Key × Value)

namespace Entries

def find? (entries : Entries) (key : Key) : Option Value :=
  entries.lookup key

def insert (entries : Entries) (key : Key) (value : Value) : Entries :=
  setPair entries key value

/-- Entries without a key. -/
def erase (entries : Entries) (key : Key) : Entries :=
  entries.filter fun entry => entry.1 != key

/-- Set the values of all given entries, one after the other. -/
def insertAll (entries additions : Entries) : Entries :=
  additions.foldl (fun entries (key, value) => entries.insert key value) entries

/-- The entries made by setting keys one after the other. -/
def ofList (pairs : List (Key × Value)) : Entries :=
  insertAll [] pairs

end Entries

/-- Variables by name, in the order of their first assignment. -/
abbrev Bindings := List (String × Value)

namespace Bindings

def find? (bindings : Bindings) (name : String) : Option Value :=
  bindings.lookup name

def set (bindings : Bindings) (name : String) (value : Value) : Bindings :=
  setPair bindings name value

/-- Set a variable unless it is there. -/
def setNew (bindings : Bindings) (name : String) (value : Value) : Bindings :=
  match bindings.find? name with
  | some _ => bindings
  | none => bindings.set name value

/-- Set all given variables, one after the other. -/
def setAll (bindings additions : Bindings) : Bindings :=
  additions.foldl (fun bindings (name, value) => bindings.set name value) bindings

/-- The object with a variable's value under each variable's name. -/
def toObject (bindings : Bindings) : Value :=
  .record (bindings.map fun (name, value) => (.text name, value))

end Bindings

end Weave
