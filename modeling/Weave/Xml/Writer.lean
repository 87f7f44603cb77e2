import Weave.Text.Search
import Weave.Value.Order
import Weave.Xml.Element

namespace Weave.Xml

/-!
# Elements as text

A tag or attribute whose name starts with a namespace in braces is written with a
prefix.  All prefixes are declared at the root, in order.
-/

/-- The name of the namespace of the attributes that every document may use. -/
def reservedNamespace : String :=
  "http://www.w3.org/XML/1998/namespace"

/-- The names of well-known namespaces, with the prefixes that are written for them. -/
def knownPrefixes : List (String × String) :=
  [(reservedNamespace, "xml"),
    ("http://www.w3.org/1999/xhtml", "html"),
    ("http://www.w3.org/1999/02/22-rdf-syntax-ns#", "rdf"),
    ("http://schemas.xmlsoap.org/wsdl/", "wsdl"),
    ("http://www.w3.org/2001/XMLSchema", "xs"),
    ("http://www.w3.org/2001/XMLSchema-instance", "xsi"),
    ("http://purl.org/dc/elements/1.1/", "dc")]

/-- The prefixes that a document declares, by namespace, in the order of their first use. -/
abbrev Prefixes := List (String × String)

def splitNamespace (name : String) : Except Fault (Option (String × String)) :=
  match name.toList with
  | '\x7b' :: rest =>
    match Text.cutAt? ['\x7d'] rest.reverse with
    | some (tag, namespaceText) =>
      .ok (some (String.ofList namespaceText.reverse, String.ofList tag.reverse))
    | none => .error (.defect .domain)
  | _ => .ok none

/-- The prefix of a namespace among declared ones; a new one is numbered by their count. -/
def prefixFor (prefixes : Prefixes) (uri : String) : String :=
  (prefixes.lookup uri).getD
    ((knownPrefixes.lookup uri).getD ("ns" ++ toString prefixes.length))

def declare (prefixes : Prefixes) (name : String) : Except Fault Prefixes := do
  match ← splitNamespace name with
  | none => return prefixes
  | some (uri, _) =>
    let chosen := prefixFor prefixes uri
    if chosen == "xml" || (prefixes.lookup uri).isSome then return prefixes
    else return prefixes ++ [(uri, chosen)]

mutual

/-- Name all namespaces of an element. -/
def declareAll (prefixes : Prefixes) : Element → Except Fault Prefixes
  | .mk tag attributes _ children => do
    let withTag ← declare prefixes tag
    let withAttributes ← (attributes.map (·.1)).foldlM declare withTag
    declareChildren withAttributes children

def declareChildren (prefixes : Prefixes) : List Element → Except Fault Prefixes
  | [] => .ok prefixes
  | child :: rest => do declareChildren (← declareAll prefixes child) rest

end

def writtenName (prefixes : Prefixes) (name : String) : String :=
  match splitNamespace name with
  | .ok (some (uri, rest)) => prefixFor prefixes uri ++ ":" ++ rest
  | _ => name

def textCharacter : Char → List Char
  | '&' => "&amp;".toList
  | '<' => "&lt;".toList
  | '>' => "&gt;".toList
  | character => [character]

def attributeCharacter : Char → List Char
  | '"' => "&quot;".toList
  | '\r' => "&#13;".toList
  | '\n' => "&#10;".toList
  | '\t' => "&#09;".toList
  | character => textCharacter character

def escapeText (text : String) : String :=
  String.ofList (text.toList.flatMap textCharacter)

def escapeAttribute (value : String) : String :=
  String.ofList (value.toList.flatMap attributeCharacter)

def writeAttribute (name value : String) : String :=
  " " ++ name ++ "=\"" ++ escapeAttribute value ++ "\""

def declarations (prefixes : Prefixes) : String :=
  let sorted := prefixes.mergeSort fun left right => orderTexts left.2 right.2 != .gt
  String.join (sorted.map fun (uri, chosen) => writeAttribute ("xmlns:" ++ chosen) uri)

mutual

/-- An element as text; `declared` stands in front of its attributes. -/
def writeElement (prefixes : Prefixes) (declared : String) : Element → String
  | .mk tag attributes text children =>
    let name := writtenName prefixes tag
    let opening := "<" ++ name ++ declared ++ String.join (attributes.map fun (key, value) =>
      writeAttribute (writtenName prefixes key) value)
    if text.isEmpty && children.isEmpty then opening ++ " />"
    else opening ++ ">" ++ escapeText text ++ writeChildren prefixes children ++ "</" ++ name ++ ">"

def writeChildren (prefixes : Prefixes) : List Element → String
  | [] => ""
  | child :: rest => writeElement prefixes "" child ++ writeChildren prefixes rest

end

/-- Write a document. -/
def write (root : Element) : Except Fault String := do
  let prefixes ← declareAll [] root
  return writeElement prefixes (declarations prefixes) root

end Weave.Xml
