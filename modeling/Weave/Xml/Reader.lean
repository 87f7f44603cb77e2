import Weave.Xml.Name
import Weave.Xml.Writer

namespace Weave.Xml

/-!
# Elements read from text

A document is read in two steps.  The first gives the markup as it is written, with
references replaced.  The second replaces the prefixes of names by their namespaces.
Comments and instructions are skipped, and so is the text behind a first child.
-/

/-- What is read before names are resolved. -/
inductive Markup where
  | text (text : List Char)
  | element (name : String) (attributes : List (String × String)) (content : List Markup)

def refuse : Except Defect α :=
  .error .badXml

def require : Option α → Except Defect α
  | some value => .ok value
  | none => refuse

def skipSpace (text : List Char) : List Char :=
  text.dropWhile isSpace

/-- The rest behind a mark that must come next. -/
def expect (mark : String) (text : List Char) : Except Defect (List Char) :=
  require (Text.after? mark.toList text)

/-- The text in front of a mark, of document characters only, and the rest behind the mark. -/
def upTo (mark : String) (text : List Char) : Except Defect (List Char × List Char) := do
  let (inner, rest) ← require (Text.cutAt? mark.toList text)
  if inner.all isDocumentCharacter then return (inner, rest) else refuse

/-! ## Names -/

/-- Read a name without colons. -/
def simpleName (text : List Char) : Except Defect (List Char × List Char) :=
  match text with
  | first :: rest =>
    if isNameStart first then
      .ok (first :: rest.takeWhile isNamePart, rest.dropWhile isNamePart)
    else refuse
  | [] => refuse

def name (text : List Char) : Except Defect (String × List Char) := do
  let (first, rest) ← simpleName text
  match rest with
  | ':' :: behind =>
    let (second, rest) ← simpleName behind
    if rest.head? == some ':' then refuse
    else return (String.ofList (first ++ ':' :: second), rest)
  | rest => return (String.ofList first, rest)

/-! ## References -/

def knownEntities : List (String × Char) :=
  [("amp", '&'), ("lt", '<'), ("gt", '>'), ("quot", '"'), ("apos", '\'')]

/-- The entities that a document declares, with their replacements. -/
abbrev Entities := List (String × List Char)

/-- A character or an entity that is named. -/
inductive Reference where
  | character (character : Char)
  | entity (name : String)

def numbered (digits : List Char) (base : Nat) : Except Defect Char := do
  let isValid := !digits.isEmpty &&
    digits.all fun digit => (Text.hexDigit? digit).any fun value => value < base
  let code := digits.foldl (fun code digit => code * base + (Text.hexDigit? digit).getD 0) 0
  let isCharacter := code < 0xD800 || (0xE000 ≤ code && code < 0x110000)
  if isValid && isCharacter && isDocumentCharacter (Char.ofNat code) then return Char.ofNat code
  else refuse

/-- Read what stands behind an ampersand. -/
def reference (text : List Char) : Except Defect (Reference × List Char) := do
  match text with
  | '#' :: 'x' :: rest =>
    let (digits, rest) ← require (Text.cutAt? [';'] rest)
    return (.character (← numbered digits 16), rest)
  | '#' :: rest =>
    let (digits, rest) ← require (Text.cutAt? [';'] rest)
    return (.character (← numbered digits 10), rest)
  | text =>
    let (word, rest) ← simpleName text
    let rest ← expect ";" rest
    match knownEntities.lookup (String.ofList word) with
    | some character => return (.character character, rest)
    | none => return (.entity (String.ofList word), rest)

/-! ## Attributes -/

/-- The value of an attribute; the outer fuel bounds the nesting of entities. -/
def attributeText (entities : Entities) : Nat → Nat → List Char → Except Defect (List Char)
  | _, _, [] => .ok []
  | _, 0, _ => refuse
  | depth, fuel + 1, '&' :: rest => do
    match ← reference rest with
    | (.character character, rest) =>
      return character :: (← attributeText entities depth fuel rest)
    | (.entity word, rest) =>
      match depth, entities.lookup word with
      | depth + 1, some replacement =>
        let inner ← attributeText entities depth (replacement.length + 1) replacement
        return inner ++ (← attributeText entities (depth + 1) fuel rest)
      | _, _ => refuse
  | depth, fuel + 1, character :: rest =>
    if character == '<' || !isDocumentCharacter character then refuse
    else do
      let shown := if isSpace character then ' ' else character
      return shown :: (← attributeText entities depth fuel rest)

def quotedText (text : List Char) : Except Defect (List Char × List Char) :=
  match text with
  | '"' :: rest => require (Text.cutAt? ['"'] rest)
  | '\'' :: rest => require (Text.cutAt? ['\''] rest)
  | _ => refuse

/-- The rest behind an equals sign with optional white space around it. -/
def equals (text : List Char) : Except Defect (List Char) := do
  return skipSpace (← expect "=" (skipSpace text))

/-- The attributes of a tag; white space stands in front of each. -/
def attributes (entities : Entities) :
    Nat → List Char → Except Defect (List (String × String) × List Char)
  | 0, _ => refuse
  | fuel + 1, text => do
    let rest := skipSpace text
    match rest with
    | '/' :: _ | '>' :: _ => return ([], rest)
    | rest =>
      if rest.length == text.length then
        refuse
      let (word, rest) ← name rest
      let (written, rest) ← quotedText (← equals rest)
      let value ← attributeText entities (entities.length + 1) (written.length + 1) written
      let (others, rest) ← attributes entities fuel rest
      if (others.lookup word).isSome then refuse
      else return ((word, String.ofList value) :: others, rest)

/-! ## Content -/

/-- The rest behind a comment whose beginning has been taken. -/
def comment (text : List Char) : Except Defect (List Char) := do
  let (_, rest) ← upTo "--" text
  expect ">" rest

/-- The rest behind an instruction whose beginning has been taken. -/
def instruction (text : List Char) : Except Defect (List Char) := do
  let (target, rest) ← simpleName text
  if (String.ofList target).toLower == "xml" then
    refuse
  let isSpaced := (rest.head?.map isSpace).getD false
  if isSpaced || Text.startsWith rest "?>".toList then return (← upTo "?>" rest).2 else refuse

def isPlain (character : Char) : Bool :=
  character != '<' && character != '&' && character != ']' && isDocumentCharacter character

/--
Content up to a closing tag or the end of the text.  The outer fuel bounds the nesting
of entities, whose replacements are content of their own.
-/
def contentFrom (entities : Entities) (element : List Char → Except Defect (Markup × List Char)) :
    Nat → Nat → List Char → Except Defect (List Markup × List Char)
  | _, 0, _ => refuse
  | depth, fuel + 1, text =>
    match text with
    | [] => .ok ([], [])
    | '<' :: '/' :: _ => .ok ([], text)
    | '<' :: '!' :: '-' :: '-' :: rest => do
      contentFrom entities element depth fuel (← comment rest)
    | '<' :: '?' :: rest => do contentFrom entities element depth fuel (← instruction rest)
    | '<' :: '!' :: rest => do
      let (characters, rest) ← upTo "]]>" (← expect "[CDATA[" rest)
      let (others, rest) ← contentFrom entities element depth fuel rest
      return (.text characters :: others, rest)
    | '<' :: _ => do
      let (child, rest) ← element text
      let (others, rest) ← contentFrom entities element depth fuel rest
      return (child :: others, rest)
    | '&' :: rest => do
      match ← reference rest with
      | (.character character, rest) =>
        let (others, rest) ← contentFrom entities element depth fuel rest
        return (.text [character] :: others, rest)
      | (.entity word, rest) =>
        match depth, entities.lookup word with
        | inside + 1, some replacement =>
          let (found, left) ←
            contentFrom entities element inside (replacement.length + 1) replacement
          if !left.isEmpty then
            refuse
          let (others, rest) ← contentFrom entities element (inside + 1) fuel rest
          return (found ++ others, rest)
        | _, _ => refuse
    | ']' :: ']' :: '>' :: _ => refuse
    | ']' :: rest => do
      let (others, rest) ← contentFrom entities element depth fuel rest
      return (.text [']'] :: others, rest)
    | text => do
      let run := text.takeWhile isPlain
      if run.isEmpty then
        refuse
      let (others, rest) ←
        contentFrom entities element depth fuel (text.drop run.length)
      return (.text run :: others, rest)

/-- An element; the fuel bounds the nesting of elements. -/
def elementWithin (entities : Entities) : Nat → List Char → Except Defect (Markup × List Char)
  | 0, _ => refuse
  | depth + 1, text => do
    let (word, rest) ← name (← expect "<" text)
    let (pairs, rest) ← attributes entities (rest.length + 1) rest
    match rest with
    | '/' :: rest => return (.element word pairs [], ← expect ">" rest)
    | rest =>
      let inner ← expect ">" rest
      let (content, rest) ← contentFrom entities (elementWithin entities depth)
        (entities.length + 1) (inner.length + 1) inner
      let (closing, rest) ← name (← expect "</" rest)
      if closing == word then
        return (.element word pairs content, ← expect ">" (skipSpace rest))
      else refuse

/-! ## What stands in front of the root -/

/-- A pseudo-attribute of a declaration; white space stands in front of it. -/
def declared? (word : String) (text : List Char) :
    Except Defect (Option (List Char) × List Char) := do
  let rest := skipSpace text
  match Text.after? word.toList rest with
  | none => return (none, text)
  | some behind =>
    if rest.length == text.length then
      refuse
    let (value, rest) ← quotedText (← equals behind)
    return (some value, rest)

def isEncodingName (text : List Char) : Bool :=
  (text.head?.map Char.isAlpha).getD false &&
    text.all fun character => character.isAlphanum || "._-".toList.contains character

/-- Skip the declaration of a document. -/
def declaration (text : List Char) : Except Defect (List Char) := do
  match Text.after? "<?xml".toList text with
  | none => return text
  | some rest =>
    if (rest.head?.map isNamePart).getD false then
      return text
    let (version, rest) ← declared? "version" rest
    let (encoding, rest) ← declared? "encoding" rest
    let (standalone, rest) ← declared? "standalone" rest
    let isValid := version.isSome && encoding.all isEncodingName &&
      standalone.all fun value => value == "yes".toList || value == "no".toList
    if isValid then expect "?>" (skipSpace rest) else refuse

/-- The replacement that a declaration gives for an entity: characters by number are replaced. -/
def replacement : Nat → List Char → Except Defect (List Char)
  | _, [] => .ok []
  | 0, _ => refuse
  | fuel + 1, '&' :: rest => do
    match ← reference rest with
    | (.character character, behind) =>
      let taken := rest.take (rest.length - behind.length)
      let shown := if rest.head? == some '#' then [character] else '&' :: taken
      return shown ++ (← replacement fuel behind)
    | (.entity word, behind) =>
      return '&' :: word.toList ++ ';' :: (← replacement fuel behind)
  | fuel + 1, character :: rest =>
    if character == '%' || !isDocumentCharacter character then refuse
    else do return character :: (← replacement fuel rest)

/-- The rest behind a declaration; quoted texts inside it may hold any character. -/
def skipDeclaration : Nat → List Char → Except Defect (List Char)
  | 0, _ => refuse
  | fuel + 1, text => do
    match text with
    | [] => refuse
    | '>' :: rest => return rest
    | '"' :: _ | '\'' :: _ => skipDeclaration fuel (← quotedText text).2
    | '<' :: _ => refuse
    | _ :: rest => skipDeclaration fuel rest

/-- The declaration of an entity; one outside the document has no replacement. -/
def entity (text : List Char) : Except Defect (Entities × List Char) := do
  let (word, rest) ← simpleName (skipSpace text)
  match skipSpace rest with
  | '"' :: inner | '\'' :: inner =>
    let quote := (skipSpace rest).take 1
    let (value, rest) ← require (Text.cutAt? quote inner)
    let rest ← expect ">" (skipSpace rest)
    return ([(String.ofList word, ← replacement (value.length + 1) value)], rest)
  | rest => return ([], ← skipDeclaration (rest.length + 1) rest)

/-- The entities that a document declares; after a reference to a parameter nothing is. -/
def subset : Nat → Bool → List Char → Except Defect (Entities × List Char)
  | 0, _, _ => refuse
  | fuel + 1, isKnown, text => do
    match skipSpace text with
    | ']' :: rest => return ([], rest)
    | '%' :: rest =>
      let (_, rest) ← simpleName rest
      subset fuel false (← expect ";" rest)
    | '<' :: '!' :: '-' :: '-' :: rest => subset fuel isKnown (← comment rest)
    | '<' :: '?' :: rest => subset fuel isKnown (← instruction rest)
    | '<' :: '!' :: rest =>
      match Text.after? "ENTITY".toList rest with
      | some behind =>
        let isSpaced := (behind.head?.map isSpace).getD false
        if !isSpaced then
          refuse
        match skipSpace behind with
        | '%' :: rest =>
          subset fuel isKnown (← skipDeclaration (rest.length + 1) rest)
        | rest =>
          let (first, rest) ← entity rest
          let (others, rest) ← subset fuel isKnown rest
          return ((if isKnown then first else []) ++ others, rest)
      | none =>
        if ["ELEMENT", "ATTLIST", "NOTATION"].any fun word =>
            Text.startsWith rest word.toList then
          subset fuel isKnown (← skipDeclaration (rest.length + 1) rest)
        else refuse
    | _ => refuse

/-- The rest behind the name of a document outside, if there is one. -/
def externalName (text : List Char) : Except Defect (List Char) := do
  match Text.after? "SYSTEM".toList text, Text.after? "PUBLIC".toList text with
  | some rest, _ => return (← quotedText (skipSpace rest)).2
  | none, some rest =>
    let (_, rest) ← quotedText (skipSpace rest)
    return (← quotedText (skipSpace rest)).2
  | none, none => return text

/-- The entities of a document type whose beginning has been taken. -/
def documentType (text : List Char) : Except Defect (Entities × List Char) := do
  if !(text.head?.map isSpace).getD false then
    refuse
  let (_, rest) ← name (skipSpace text)
  let rest := skipSpace (← externalName (skipSpace rest))
  match rest with
  | '[' :: inner =>
    let (entities, rest) ← subset (inner.length + 1) true inner
    return (entities, ← expect ">" (skipSpace rest))
  | rest => return ([], ← expect ">" rest)

/-- White space, comments, instructions and at most one document type. -/
def prolog : Nat → Option Entities → List Char → Except Defect (Option Entities × List Char)
  | 0, _, _ => refuse
  | fuel + 1, entities, text => do
    match skipSpace text with
    | '<' :: '!' :: '-' :: '-' :: rest => prolog fuel entities (← comment rest)
    | '<' :: '?' :: rest => prolog fuel entities (← instruction rest)
    | '<' :: '!' :: rest =>
      match entities, Text.after? "DOCTYPE".toList rest with
      | none, some rest =>
        let (declared, rest) ← documentType rest
        prolog fuel (some declared) rest
      | _, _ => refuse
    | rest => return (entities, rest)

/-! ## Namespaces -/

def declaringNamespace : String :=
  "http://www.w3.org/2000/xmlns/"

/-- The namespaces of prefixes; the empty prefix is that of plain element names. -/
abbrev Scope := List (String × String)

/-- The parts of a name around its colon. -/
def splitName (name : String) : String × String :=
  match Text.cutAt? [':'] name.toList with
  | some (before, rest) => (String.ofList before, String.ofList rest)
  | none => ("", name)

def mayBind (word uri : String) : Bool :=
  if word == "xmlns" then false
  else if word == "xml" then uri == reservedNamespace
  else uri != reservedNamespace && uri != declaringNamespace && !(word != "" && uri == "") &&
    !uri.contains '\x7d'

def binding? (entry : String × String) : Option (String × String) :=
  if entry.1 == "xmlns" then some ("", entry.2)
  else
    match splitName entry.1 with
    | ("xmlns", word) => some (word, entry.2)
    | _ => none

def inNamespace (uri tag : String) : String :=
  if uri.isEmpty then tag else "\x7b" ++ uri ++ "\x7d" ++ tag

def resolveName (scope : Scope) (usesDefault : Bool) (name : String) : Except Defect String :=
  match splitName name with
  | ("", tag) => .ok (if usesDefault then inNamespace ((scope.lookup "").getD "") tag else tag)
  | (word, tag) => do return inNamespace (← require (scope.lookup word)) tag

def hasDuplicates : List String → Bool
  | [] => false
  | first :: rest => rest.contains first || hasDuplicates rest

def leadingText : List Markup → List Char
  | .text text :: rest => text ++ leadingText rest
  | _ => []

mutual

/-- Put the names of an element into their namespaces. -/
def resolve (scope : Scope) : Markup → Except Defect (List Element)
  | .text _ => .ok []
  | .element name attributes content => do
    let bindings := attributes.filterMap binding?
    if !bindings.all (fun (word, uri) => mayBind word uri) then
      refuse
    let scope := bindings ++ scope
    let tag ← resolveName scope true name
    let plain ← (attributes.filter fun entry => (binding? entry).isNone).mapM
      fun (key, value) => do return (← resolveName scope false key, value)
    if hasDuplicates (plain.map (·.1)) then
      refuse
    let children ← resolveAll scope content
    return [.mk tag plain (String.ofList (leadingText content)) children]

def resolveAll (scope : Scope) : List Markup → Except Defect (List Element)
  | [] => .ok []
  | first :: rest => do
    let elements ← resolve scope first
    return elements ++ (← resolveAll scope rest)

end

/-- Read a document. -/
def read (source : List Char) : Except Defect Element := do
  let unmarked := if source.head? == some '\uFEFF' then source.tail else source
  let text ← declaration (Text.withLineFeeds unmarked)
  let (declared, rest) ← prolog (text.length + 1) none text
  let entities := declared.getD []
  let depth := entities.foldl (fun depth entity => depth + entity.2.length) (text.length + 1)
  let (root, rest) ← elementWithin entities depth rest
  let (_, rest) ← prolog (rest.length + 1) (some []) rest
  match rest, ← resolve [("xml", reservedNamespace)] root with
  | [], [element] => return element
  | _, _ => refuse

end Weave.Xml
