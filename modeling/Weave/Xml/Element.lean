import Weave.Text.Blank
import Weave.Value.Show

namespace Weave.Xml

/-!
# Elements

An element has a tag, attributes, the text in front of its first child, and children.
As a value it is its trimmed text, or an object with an entry for every attribute, for
every tag among the children, and for the text.
-/

/-- An element with its attributes, text and children. -/
inductive Element where
  | mk (tag : String) (attributes : List (String × String)) (text : String)
      (children : List Element)

namespace Element

def tag : Element → String
  | .mk tag _ _ _ => tag

def attributes : Element → List (String × String)
  | .mk _ attributes _ _ => attributes

def text : Element → String
  | .mk _ _ text _ => text

def children : Element → List Element
  | .mk _ _ _ children => children

/-- Add the value of a child; values under one tag are gathered in a list. -/
def addChild (entries : Entries) (tag : String) (value : Value) : Entries :=
  match entries.find? (.text tag) with
  | none => entries.insert (.text tag) value
  | some (.list .xml items) => entries.insert (.text tag) (.list .xml (items ++ [value]))
  | some first => entries.insert (.text tag) (.list .xml [first, value])

def attributeEntry (entry : String × String) : Key × Value :=
  (.text ("@" ++ entry.1), .text entry.2)

mutual

/-- An element as a value. -/
def toValue : Element → Value
  | .mk _ attributes text children =>
    let trimmed := Text.trimmed text
    if children.isEmpty && attributes.isEmpty then .text trimmed
    else
      let entries := childEntries (Entries.ofList (attributes.map attributeEntry)) children
      if trimmed.isEmpty then .object .xml entries
      else .object .xml (entries.insert (.text textEntry) (.text trimmed))

/-- Add the values of children one after the other. -/
def childEntries : Entries → List Element → Entries
  | entries, [] => entries
  | entries, child :: rest => childEntries (addChild entries child.tag child.toValue) rest

end

/-- The tag of the items of a list that stands in the place of an element. -/
def itemTag : String := "item"

/-- The text of an element for a value that has no parts. -/
def leafText : Value → Except Fault String
  | .null => .ok ""
  | value => value.toText

mutual

/-- A value as an element. -/
def ofValue (tag : String) : Value → Except Fault Element
  | .object _ entries => ofEntries (.mk tag [] "" []) entries
  | .list _ items => do return .mk tag [] "" (← ofItems itemTag items)
  | value => do return .mk tag [] (← leafText value) []

def ofItems (tag : String) : List Value → Except Fault (List Element)
  | [] => .ok []
  | item :: rest => do
    let first ← ofValue tag item
    return first :: (← ofItems tag rest)

/-- Give an element an attribute, its text or children for every entry. -/
def ofEntries : Element → List (Key × Value) → Except Fault Element
  | element, [] => .ok element
  | _, (.missing, _) :: _ => .error (.defect .missingPart)
  | .mk tag attributes text children, (.text name, value) :: rest => do
    if isAttributeName name then
      let attributes := setPair attributes (String.ofList name.toList.tail) (← value.toText)
      ofEntries (.mk tag attributes text children) rest
    else if name == textEntry then
      ofEntries (.mk tag attributes (← value.toText) children) rest
    else
      let added ← ofChild name value
      ofEntries (.mk tag attributes text (children ++ added)) rest

/-- The children for one entry: one for every item of a list. -/
def ofChild (tag : String) : Value → Except Fault (List Element)
  | .list _ items => ofItems tag items
  | value => do return [← ofValue tag value]

end

end Element

end Weave.Xml
