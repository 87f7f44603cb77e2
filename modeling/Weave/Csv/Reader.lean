import Weave.Fault

namespace Weave.Csv

/-!
# Tables read from text

A table is read line by line.  A field between quotes may hold separators, line ends
and, doubled, quotes; what follows its closing quote is taken as it is.
-/

/-- The separator and the quote. -/
structure Signs where
  separator : Char
  quote : Char
  deriving Repr, DecidableEq

/-- Where in a record the reading is. -/
inductive Place where
  | startOfRecord
  | startOfField
  | inField
  | inQuotes
  /-- Behind a quote inside quotes, which is doubled or closes the field. -/
  | behindQuote
  /-- Behind a line end outside quotes. -/
  | behindLineEnd
  deriving Repr, DecidableEq

/-- A record being read; characters and fields are held in reverse. -/
structure Draft where
  place : Place
  field : List Char
  length : Nat
  fields : List String

def Draft.empty : Draft :=
  ⟨.startOfRecord, [], 0, []⟩

/-- How long a field may be. -/
def fieldLimit : Nat := 131072

namespace Draft

def close (draft : Draft) (place : Place) : Draft :=
  ⟨place, [], 0, String.ofList draft.field.reverse :: draft.fields⟩

def add (draft : Draft) (character : Char) (place : Place) : Except Defect Draft :=
  if draft.length ≥ fieldLimit then .error .badTable
  else .ok ⟨place, character :: draft.field, draft.length + 1, draft.fields⟩

def endsLine (character : Char) : Bool :=
  character == '\n' || character == '\r'

def startField (signs : Signs) (draft : Draft) (character : Char) : Except Defect Draft :=
  if endsLine character then .ok (draft.close .behindLineEnd)
  else if character == signs.quote then .ok { draft with place := .inQuotes }
  else if character == signs.separator then .ok (draft.close .startOfField)
  else draft.add character .inField

def read (signs : Signs) (draft : Draft) (character : Char) : Except Defect Draft :=
  match draft.place with
  | .startOfRecord =>
    if endsLine character then .ok { draft with place := .behindLineEnd }
    else startField signs draft character
  | .startOfField => startField signs draft character
  | .inField =>
    if endsLine character then .ok (draft.close .behindLineEnd)
    else if character == signs.separator then .ok (draft.close .startOfField)
    else draft.add character .inField
  | .inQuotes =>
    if character == signs.quote then .ok { draft with place := .behindQuote }
    else draft.add character .inQuotes
  | .behindQuote =>
    if character == signs.quote then draft.add character .inQuotes
    else if character == signs.separator then .ok (draft.close .startOfField)
    else if endsLine character then .ok (draft.close .behindLineEnd)
    else draft.add character .inField
  | .behindLineEnd => if endsLine character then .ok draft else .error .badTable

/-- Pass the end of a line; only a field between quotes goes on in the next one. -/
def endLine (draft : Draft) : Draft :=
  match draft.place with
  | .startOfRecord | .inQuotes => draft
  | .behindLineEnd => { draft with place := .startOfRecord }
  | .startOfField | .inField | .behindQuote => draft.close .startOfRecord

def record (draft : Draft) : List String :=
  draft.fields.reverse

end Draft

/-- The lines of a text with their line feeds; the line being read is held in reverse. -/
def linesFrom : List Char → List Char → List (List Char)
  | [], [] => []
  | line, [] => [line.reverse]
  | line, character :: rest =>
    if character == '\n' then (character :: line).reverse :: linesFrom [] rest
    else linesFrom (character :: line) rest

/-- The records of lines; quotes that are not closed reach to the end. -/
def recordsFrom (signs : Signs) : Draft → List (List Char) → Except Defect (List (List String))
  | draft, [] =>
    .ok (if draft.place == .inQuotes then [(draft.close .startOfRecord).record] else [])
  | draft, line :: rest => do
    let read ← line.foldlM (Draft.read signs) draft
    let ended := read.endLine
    if ended.place == .startOfRecord then
      return ended.record :: (← recordsFrom signs .empty rest)
    else
      recordsFrom signs ended rest

/-- The records of a text; an empty line is a record without fields. -/
def read (signs : Signs) (text : List Char) : Except Defect (List (List String)) :=
  recordsFrom signs .empty (linesFrom [] text)

end Weave.Csv
