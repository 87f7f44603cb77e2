import Weave.Text.Blank
import Weave.Text.Case
import Weave.Text.Digit
import Weave.Text.Letter

namespace Weave

/-!
# Patterns

The tree of a pattern over texts, and which characters its classes hold.  The modes
a part of a pattern is read in (letter case, line ends) are kept in its nodes.
-/

namespace Pattern

/-- Named classes of characters. -/
inductive Class where
  | digit
  | blank
  | word
  deriving Repr, DecidableEq

/-- Whether a character is of a class. -/
def Class.holds (asciiOnly : Bool) (kind : Class) (character : Char) : Bool :=
  (!asciiOnly || character.toNat < 128) &&
    match kind with
    | .digit => Text.isDigit character
    | .blank =>
      if asciiOnly then
        character == ' ' || (9 ≤ character.toNat && character.toNat ≤ 13)
      else Text.isBlank character
    | .word => Text.isWordCharacter character

/-- A part of a set of characters. -/
inductive Member where
  | range (first last : Char)
  | kind (kind : Class) (negated : Bool)
  deriving Repr, DecidableEq

/-- Whether a character is one of those that a member stands for. -/
def Member.holds (asciiOnly : Bool) (character : Char) : Member → Bool
  | .range first last => first.toNat ≤ character.toNat && character.toNat ≤ last.toNat
  | .kind which negated => which.holds asciiOnly character != negated

/-- Places between characters. -/
inductive Anchor where
  | textStart
  | lineStart
  | textEnd
  /-- The end of the text, or the line feed the text ends with. -/
  | finalLineEnd
  | lineEnd
  | wordBoundary
  | wordInside
  deriving Repr, DecidableEq

/-- Whether a repetition takes as much as it can, as little, or never gives back. -/
inductive Greed where
  | most
  | least
  | keep
  deriving Repr, DecidableEq

/-- The modes a part of a pattern is read in. -/
structure Mode where
  ignoreCase : Bool
  /-- Whether the anchors for the start and the end hold at every line. -/
  everyLine : Bool
  /-- Whether the point holds line feeds. -/
  pointHoldsAll : Bool
  /-- Whether blanks and comments in the pattern are skipped. -/
  verbose : Bool
  asciiOnly : Bool
  deriving Repr, DecidableEq

/-- The mode with all switches off. -/
def Mode.plain : Mode :=
  ⟨false, false, false, false, false⟩

/-- The syntax of patterns. -/
inductive Node where
  | empty
  | character (wanted : Char) (ignoreCase : Bool)
  | point (holdsAll : Bool)
  | oneOf (negated : Bool) (members : List Member) (ignoreCase asciiOnly : Bool)
  | anchor (anchor : Anchor) (asciiOnly : Bool)
  | group (index : Nat) (body : Node)
  | reference (index : Nat) (ignoreCase : Bool)
  | sequence (first second : Node)
  | choice (first second : Node)
  | repetition (least : Nat) (most : Option Nat) (greed : Greed) (body : Node)
  | ahead (negated : Bool) (body : Node)
  /-- What stands in front, of the given width, must, or must not, match. -/
  | behind (negated : Bool) (width : Nat) (body : Node)
  /-- The first way to match is the only one. -/
  | decided (body : Node)
  | whether (group : Nat) (whenSet whenUnset : Node)
  deriving Repr

/-- The only character a case mapping gives, or the character itself. -/
def single (mapping : Char → List Char) (character : Char) : Char :=
  match mapping character with
  | [mapped] => mapped
  | _ => character

/-- Whether two characters differ in case at most. -/
def sameLetter (left right : Char) : Bool :=
  left == right || single Text.lowerChar left == single Text.lowerChar right ||
    single Text.upperChar left == single Text.upperChar right

/-- Whether a set holds a character, or one that differs from it in case only. -/
def memberOf (members : List Member) (ignoreCase asciiOnly : Bool) (character : Char) : Bool :=
  let held (character : Char) : Bool := members.any (·.holds asciiOnly character)
  held character ||
    (ignoreCase &&
      (held (single Text.lowerChar character) || held (single Text.upperChar character)))

/-- The least and, if there is one, the greatest number of characters that a pattern matches. -/
def Node.width : Node → Nat × Option Nat
  | .empty | .anchor .. | .ahead .. | .behind .. => (0, some 0)
  | .character .. | .point _ | .oneOf .. => (1, some 1)
  | .reference .. => (0, none)
  | .group _ body | .decided body => body.width
  | .sequence first second =>
    let (firstLeast, firstMost) := first.width
    let (secondLeast, secondMost) := second.width
    (firstLeast + secondLeast, firstMost.bind fun most => secondMost.map (most + ·))
  | .choice first second | .whether _ first second =>
    let (firstLeast, firstMost) := first.width
    let (secondLeast, secondMost) := second.width
    (min firstLeast secondLeast, firstMost.bind fun most => secondMost.map (max most ·))
  | .repetition least most _ body =>
    let (bodyLeast, bodyMost) := body.width
    (least * bodyLeast, most.bind fun most => bodyMost.map (most * ·))

end Pattern

/-- A pattern with the number of its groups. -/
structure Pattern where
  root : Pattern.Node
  groups : Nat
  deriving Repr

end Weave
