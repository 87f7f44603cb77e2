import Weave.Csv.Reader
import Weave.Csv.Writer
import Weave.Json.Reader
import Weave.Json.Writer
import Weave.Text.Encoding
import Weave.Value.Convert
import Weave.Xml.Reader

namespace Weave

/-!
# Formats

The formats in which values are read and written, found by name or by media type, and
what their options mean.  One format leaves values as they are.
-/

/-- The formats that can be read and written. -/
inductive Format where
  | native
  | json
  | csv
  | xml
  deriving Repr, DecidableEq

/-- The options of a reader or a writer. -/
abbrev Options := Entries

namespace Options

def get? (options : Options) (name : String) : Option Value :=
  Entries.find? options (.text name)

def getD (options : Options) (name : String) (fallback : Value) : Value :=
  (options.get? name).getD fallback

/-- Whether an option is switched on. -/
def isYes : Value → Bool
  | .text value =>
    let word := Text.lower value
    if ["true", "yes", "1"].contains word then true
    else if ["false", "no", "0"].contains word then false
    else !value.isEmpty
  | value => value.isTruthy

def flag (options : Options) (name : String) (fallback : Bool) : Bool :=
  isYes (options.getD name (.bool fallback))

end Options

namespace FormatCause

def ofFault : Fault → FormatCause
  | .defect trouble => .defect trouble
  | _ => .defect .operands

end FormatCause

namespace Format

def id : Format → String
  | .native => "python"
  | .json => "json"
  | .csv => "csv"
  | .xml => "xml"

def mediaType (format : Format) : String :=
  "application/" ++ format.id

def names : Format → List String
  | .native => ["python", "application/python", "text/x-python"]
  | format => [format.id, format.mediaType, "text/" ++ format.id]

/-- The format with a name, in any case. -/
def named? (name : String) : Option Format :=
  [native, json, csv, xml].find? fun format => format.names.contains (Text.lower name)

/-- The result of a computation whose fault is the cause of a failure. -/
def causedBy : Except Fault α → Except FormatCause α
  | .ok value => .ok value
  | .error fault => .error (.ofFault fault)

/-- The result of a computation whose defect is the cause of a failure. -/
def causedByDefect : Except Defect α → Except FormatCause α
  | .ok value => .ok value
  | .error trouble => .error (.defect trouble)

/-! ## Reading -/

/-- Bytes as text in the encoding that the options name; no bytes are a text in any. -/
def decode (options : Options) (data : List UInt8) : Except FormatCause String :=
  match options.getD "encoding" (.text "utf-8") with
  | .text name =>
    if data.isEmpty then .ok ""
    else
      match Text.Encoding.named? name with
      | none => .error (.defect .unknownEncoding)
      | some encoding =>
        match encoding.decode? data with
        | some text => .ok text
        | none => .error (.defect .undecodable)
  | _ => .error (.defect .operands)

/-- The text that is to be read. -/
def textOf (options : Options) : Value → Except FormatCause String
  | .text value => .ok value
  | .bytes data | .buffer data => decode options data
  | _ => .error .notText

/-- Read JSON; lists and objects are taken as they are. -/
def readJson (options : Options) : Value → Except FormatCause Value
  | .list origin items => .ok (.list origin items)
  | .object origin entries => .ok (.object origin entries)
  | value => do causedByDefect (Json.read (← textOf options value).toList)

/-- The only character of a text; the empty text stands for a default. -/
def oneCharacter (fallback : Char) (value : Value) : Except FormatCause Char := do
  match (← causedBy value.toText).toList with
  | [] => return fallback
  | [character] => return character
  | _ => throw (.defect .operands)

/-- A record as an object: cells beyond the names have no key and missing cells are null. -/
def rowOf (names : List String) (cells : List String) : Value :=
  let named := (names.zip cells).map fun (name, cell) => (Key.text name, Value.text cell)
  let missing := (names.drop cells.length).map fun name => (Key.text name, Value.null)
  let surplus := (cells.drop names.length).map Value.text
  let extra := if surplus.isEmpty then [] else [(Key.missing, Value.array surplus)]
  .record (Entries.ofList (named ++ extra ++ missing))

/-- The rows under a header; records without fields are skipped. -/
def rowsOf : List (List String) → List Value
  | [] => []
  | names :: records => (records.filter (!·.isEmpty)).map (rowOf names)

/-- Read a table; a list is taken as it is. -/
def readCsv (options : Options) : Value → Except FormatCause Value
  | .list origin items => .ok (.list origin items)
  | value => do
    let text ← textOf options value
    let separator ← oneCharacter ',' (options.getD "separator" (.text ","))
    let quote ← oneCharacter '"' (options.getD "quote" (.text "\""))
    let records ← causedByDefect (Csv.read ⟨separator, quote⟩ text.toList)
    if options.flag "header" true then return .array (rowsOf records)
    else return .array (records.map fun record => .array (record.map Value.text))

/-- Read XML: an object of the root under its tag. -/
def readXml (options : Options) (value : Value) : Except FormatCause Value := do
  let text ← textOf options value
  match Xml.read text.toList with
  | .ok root => return .record [(.text root.tag, root.toValue)]
  | .error _ => throw .invalidXml

/-- Read a value in a format. -/
def read (format : Format) (options : Options) (value : Value) : Except FormatFault Value :=
  let result : Except FormatCause Value :=
    match format with
    | .native => .ok value
    | .json => readJson options value
    | .csv => readCsv options value
    | .xml => readXml options value
  match result with
  | .ok value => .ok value
  | .error cause => .error (.reading format.id cause)

/-! ## Writing -/

/-- The number of blanks per level, if lines are indented. -/
def indentOf (options : Options) : Except FormatCause (Option Nat) :=
  match options.getD "indent" .null with
  | .null => .ok none
  | value =>
    match value.toInt with
    | .ok indent => .ok (if indent < 0 then none else some indent.toNat)
    | .error fault =>
      .error (if fault.isKindFault || fault.isDomainFault then .badIndent else .ofFault fault)

def writeJson (options : Options) (value : Value) : Except FormatCause Value := do
  let indent ← indentOf options
  let style : Json.Style :=
    ⟨indent, options.flag "ensure_ascii" true, options.flag "sort_keys" false⟩
  return .text (← causedBy (Json.write style value))

/-- A cell as text; null is empty. -/
def cellText : Value → Except FormatCause String
  | .null => .ok ""
  | value => causedBy value.toText

/-- The quote of a table that is written; null stands for none. -/
def quoteOf : Value → Except FormatCause (Option Char)
  | .null => .ok none
  | .text value =>
    match value.toList with
    | [character] => .ok (some character)
    | _ => .error (.defect .operands)
  | _ => .error (.defect .operands)

def lineEndOf : Value → Except FormatCause (List Char)
  | .null => .ok ['\n']
  | .text value => .ok value.toList
  | _ => .error (.defect .operands)

def layoutOf (options : Options) : Except FormatCause Csv.Layout := do
  let separator ← oneCharacter ',' (options.getD "separator" (.text ","))
  let quote ← quoteOf (options.getD "quote" (.text "\""))
  return ⟨separator, quote, ← lineEndOf (options.getD "newline" .null)⟩

/-- The columns of a table of objects: those the options name, or the keys of the first object. -/
def columnsOf (options : Options) (first : Entries) : Except FormatCause (List Value) := do
  let named := options.getD "columns" .null
  let columns ←
    match named with
    | .null => pure (first.map fun entry => entry.1.toValue)
    | .text names =>
      let parts := ((Text.splitString "," names).map Text.trimmed).filter (!·.isEmpty)
      pure (parts.map Value.text)
    | other => if other.isTruthy then causedBy other.members else pure []
  if columns.isEmpty then throw .noColumns else return columns

/-- The cells of an object under columns; a column that is no key has an empty cell. -/
def cellsOf (columns : List Value) : Value → Except FormatCause (List String)
  | .object _ entries =>
    columns.mapM fun column => do
      causedBy column.requireMember
      match (Key.ofValue? column).bind (Entries.find? entries) with
      | some value => cellText value
      | none => return ""
  | _ => .error (.defect .missingPart)

def headerOf (columns : List Value) : Except FormatCause (List String) :=
  columns.mapM fun column => do
    causedBy column.requireMember
    cellText column

/-- Write rows that are no objects: lists as records, other values as records of one field. -/
def plainRow : Value → Except FormatCause (List String)
  | .list _ items | .tuple items => items.mapM cellText
  | value => do return [← cellText value]

/-- How the options ask to write a table of objects, which cannot do without a quote. -/
def objectLayoutOf (options : Options) : Except FormatCause Csv.Layout := do
  let layout ← layoutOf options
  if layout.quote.isNone then throw (.defect .operands) else return layout

def writeRows (options : Options) (rows : List Value) : Except FormatCause Value := do
  match rows with
  | .object _ first :: _ =>
    let columns ← columnsOf options first
    let layout ← objectLayoutOf options
    let header ← if options.flag "header" true then do pure [← headerOf columns] else pure []
    let top ← causedByDefect (Csv.write layout header)
    let body ← rows.mapM fun row => do
      causedByDefect (Csv.write layout [← cellsOf columns row])
    return .text (top ++ String.join body)
  | rows =>
    let layout ← layoutOf options
    return .text (← causedByDefect (Csv.write layout (← rows.mapM plainRow)))

/-- Write a table; one object is a table of one row. -/
def writeCsv (options : Options) : Value → Except FormatCause Value
  | .object origin entries => writeRows options [.object origin entries]
  | .list _ rows => writeRows options rows
  | _ => .error .notRows

/-- The name and the value of the root: an object of one entry names it, unless an option does. -/
def rootOf (options : Options) (value : Value) : Except Fault (String × Value) :=
  match value, options.get? "root" with
  | .object _ [(key, root)], none => .ok (key.shown, root)
  | value, some name => do return (← name.toText, value)
  | value, none => .ok ("root", value)

def writeXml (options : Options) (value : Value) : Except FormatCause Value := do
  let (tag, root) ← causedBy (rootOf options value)
  let element ← causedBy (Xml.Element.ofValue tag root)
  return .text (← causedBy (Xml.write element))

/-- Write a value in a format. -/
def write (format : Format) (options : Options) (value : Value) : Except FormatFault Value :=
  let result : Except FormatCause Value :=
    match format with
    | .native => .ok value
    | .json => writeJson options value
    | .csv => writeCsv options value
    | .xml => writeXml options value
  match result with
  | .ok value => .ok value
  | .error cause => .error (.writing format.id cause)

/-- Read in the format with a name. -/
def readNamed (name : String) (options : Options) (value : Value) : Except FormatFault Value :=
  match named? name with
  | some format => format.read options value
  | none => .error (.unsupportedInput name)

/-- Write in the format with a name. -/
def writeNamed (name : String) (options : Options) (value : Value) : Except FormatFault Value :=
  match named? name with
  | some format => format.write options value
  | none => .error (.unsupportedOutput name)

end Format

end Weave
