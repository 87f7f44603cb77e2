namespace Weave

/-!
# Positions in a source

Lines and columns count from one.  Only the line feed starts a new line; every
other character advances the column.
-/

/-- A line and a column, from one on. -/
structure Position where
  line : Nat
  column : Nat
  deriving Repr, DecidableEq, Inhabited

namespace Position

/-- Where a source starts. -/
def start : Position :=
  ⟨1, 1⟩

/-- The position of what was not read. -/
def nowhere : Position :=
  ⟨0, 0⟩

/-- The position behind a character. -/
def next (position : Position) (character : Char) : Position :=
  if character = '\n' then ⟨position.line + 1, 1⟩
  else ⟨position.line, position.column + 1⟩

/-- The position behind a text. -/
def advance (position : Position) (text : List Char) : Position :=
  text.foldl next position

end Position

end Weave
