import Weave.Fault

namespace Weave.Csv

/-!
# Tables as text

A field is written between quotes if it holds a separator, a quote or a character of
the line end; a quote inside it is doubled.  Without quotes such a field cannot be
written at all.
-/

/-- How a table is written; without a quote no field is quoted. -/
structure Layout where
  separator : Char
  quote : Option Char
  lineEnd : List Char
  deriving Repr, DecidableEq

/-- Whether a character cannot stand in a plain field. -/
def Layout.isSpecial (layout : Layout) (character : Char) : Bool :=
  character == layout.separator || layout.quote == some character ||
    layout.lineEnd.contains character

def quoted (quote : Char) (field : List Char) : List Char :=
  quote :: (field.flatMap fun character =>
    if character == quote then [quote, quote] else [character]) ++ [quote]

def Layout.field (layout : Layout) (field : List Char) : Except Defect (List Char) :=
  if field.any layout.isSpecial then
    match layout.quote with
    | some quote => .ok (quoted quote field)
    | none => .error .badTable
  else .ok field

def joined (separator : Char) : List (List Char) → List Char
  | [] => []
  | [field] => field
  | field :: rest => field ++ separator :: joined separator rest

/-- A record as a line; a record of one empty field is written as quotes. -/
def Layout.line (layout : Layout) (record : List String) : Except Defect (List Char) := do
  let fields ← record.mapM fun field => layout.field field.toList
  match fields with
  | [[]] =>
    match layout.quote with
    | some quote => return quoted quote [] ++ layout.lineEnd
    | none => throw .badTable
  | fields => return joined layout.separator fields ++ layout.lineEnd

/-- Write records as lines. -/
def write (layout : Layout) (records : List (List String)) : Except Defect String := do
  let lines ← records.mapM layout.line
  return String.ofList lines.flatten

end Weave.Csv
