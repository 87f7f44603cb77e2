import Weave.Expr.Parser

namespace Weave

/-!
# Templates

A text that still holds interpolations when it is evaluated.  An interpolation that is
not closed reaches to the last character of the text, which is lost.
-/

/-- Plain text or the source of an expression. -/
inductive TemplatePiece where
  | plain (text : List Char)
  | source (text : List Char)
  deriving Repr, DecidableEq

/-- The pieces of a template; the fuel bounds the number of interpolations. -/
def templatePieces : Nat → List Char → List TemplatePiece
  | 0, _ => []
  | fuel + 1, text =>
    match Text.cutAt? interpolationMark text with
    | none => [.plain text]
    | some (before, opened) =>
      let (inner, rest) := (closeParens 1 opened).getD (opened.dropLast, [])
      .plain before :: .source inner :: templatePieces fuel rest

def TemplatePiece.ofText (text : String) : List TemplatePiece :=
  templatePieces (text.length + 1) text.toList

end Weave
