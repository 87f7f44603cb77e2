import Weave.ParseFault
import Weave.Text.Blank
import Weave.Text.Digit
import Weave.Text.Search

namespace Weave

/-!
# Scanning a source into tokens

A source is cut into pieces from the left: gaps (blanks and comments), which say
nothing, and lexemes, which become tokens.  Every piece is a non-empty beginning
of what is left, so nothing of the source is lost.
-/

namespace Token

/-- A gap between tokens or a lexeme. -/
inductive Piece where
  | gap (text : List Char)
  | lexeme (kind : Kind) (text : List Char)
  deriving Repr, DecidableEq

def Piece.text : Piece → List Char
  | .gap text => text
  | .lexeme _ text => text

/-- Why no piece can be cut off. -/
inductive Refusal where
  | openComment
  | unknownCharacter
  deriving Repr, DecidableEq

def isWordStart (character : Char) : Bool :=
  character.isAlpha || character == '_'

def isWordPart (character : Char) : Bool :=
  character.isAlphanum || character == '_'

/-- The kind of a word: a few words have a kind of their own. -/
def wordKind (text : List Char) : Kind :=
  if text = ['d', 'e', 'f', 'a', 'u', 'l', 't'] then .defaultWord
  else if text = ['t', 'r', 'u', 'e'] || text = ['f', 'a', 'l', 's', 'e'] then .boolean
  else if text = ['n', 'u', 'l', 'l'] then .nullWord
  else .word

/-- The rest of a string literal after its opening quote, up to and with the closing one. -/
def closeString (quote : Char) : List Char → Option (List Char × List Char)
  | [] => none
  | ['\\'] => none
  | '\\' :: escaped :: rest =>
    if escaped = '\n' then none
    else (closeString quote rest).map fun (body, left) => ('\\' :: escaped :: body, left)
  | character :: rest =>
    if character = quote then some ([character], rest)
    else (closeString quote rest).map fun (body, left) => (character :: body, left)

def closeComment : List Char → Option (List Char × List Char)
  | '*' :: '/' :: rest => some (['*', '/'], rest)
  | character :: rest =>
    (closeComment rest).map fun (body, left) => (character :: body, left)
  | [] => none

def numberPart (text : List Char) : List Char × List Char :=
  let whole := text.takeWhile Text.isDigit
  match text.dropWhile Text.isDigit with
  | '.' :: rest =>
    let fraction := rest.takeWhile Text.isDigit
    if fraction.isEmpty then (whole, '.' :: rest)
    else (whole ++ '.' :: fraction, rest.dropWhile Text.isDigit)
  | rest => (whole, rest)

def pairKind? : Char → Char → Option Kind
  | '-', '-' => some .diff
  | '?', '.' => some .safeDot
  | '+', '+' => some .concat
  | '>', '=' => some .greaterEqual
  | '<', '=' => some .lessEqual
  | '=', '=' => some .equal
  | '!', '=' => some .notEqual
  | '-', '>' => some .arrow
  | '$', '$' => some .dollar
  | _, _ => none

def signKind? : Char → Option Kind
  | '/' => some .slash
  | '>' => some .greater
  | '<' => some .less
  | '{' => some .openBrace
  | '}' => some .closeBrace
  | '[' => some .openBracket
  | ']' => some .closeBracket
  | '(' => some .openParen
  | ')' => some .closeParen
  | ':' => some .colon
  | ',' => some .comma
  | '.' => some .dot
  | '+' => some .plus
  | '*' => some .star
  | '@' => some .atSign
  | '=' => some .assign
  | '$' => some .dollar
  | _ => none

/-- The sign a text starts with, two characters before one. -/
def sign? : List Char → Option (Kind × List Char × List Char)
  | first :: second :: rest =>
    match pairKind? first second with
    | some kind => some (kind, [first, second], rest)
    | none => (signKind? first).map fun kind => (kind, [first], second :: rest)
  | [single] => (signKind? single).map fun kind => (kind, [single], [])
  | [] => none

/-- The lexeme at the start of a text. -/
def lexeme? : List Char → Option (Kind × List Char × List Char)
  | [] => none
  | character :: rest =>
    if Text.isDigit character then
      let (number, left) := numberPart (character :: rest)
      some (.number, number, left)
    else if character = '"' || character = '\'' then
      (closeString character rest).map fun (body, left) => (.string, character :: body, left)
    else if isWordStart character then
      let word := character :: rest.takeWhile isWordPart
      some (wordKind word, word, rest.dropWhile isWordPart)
    else sign? (character :: rest)

/-- Cut the first piece off a text that is not empty. -/
def piece : List Char → Except Refusal (Piece × List Char)
  | '/' :: '/' :: rest =>
    .ok (.gap ('/' :: '/' :: rest.takeWhile (· ≠ '\n')), rest.dropWhile (· ≠ '\n'))
  | '/' :: '*' :: rest =>
    match closeComment rest with
    | some (body, left) => .ok (.gap ('/' :: '*' :: body), left)
    | none => .error .openComment
  | text =>
    match text.takeWhile Text.isBlank with
    | [] =>
      match lexeme? text with
      | some (kind, lexeme, left) => .ok (.lexeme kind lexeme, left)
      | none => .error .unknownCharacter
    | blank => .ok (.gap blank, text.dropWhile Text.isBlank)

def Refusal.fault (position : Position) : Refusal → ParseFault
  | .openComment => .unterminatedComment position
  | .unknownCharacter => .unexpectedCharacter position

/-- Scan from a position; the fuel bounds the number of pieces. -/
def scanFrom : Nat → Position → List Char → Except ParseFault (List Token)
  | _, position, [] => .ok [⟨.finish, "", position⟩]
  | 0, _, _ :: _ => .error .exhausted
  | fuel + 1, position, text@(_ :: _) =>
    match piece text with
    | .error refusal => .error (refusal.fault position)
    | .ok (.gap skipped, rest) => scanFrom fuel (position.advance skipped) rest
    | .ok (.lexeme kind lexeme, rest) =>
      match scanFrom fuel (position.advance lexeme) rest with
      | .error fault => .error fault
      | .ok tokens => .ok (⟨kind, String.ofList lexeme, position⟩ :: tokens)

/-- The tokens of a source. -/
def scan (source : List Char) : Except ParseFault (List Token) :=
  scanFrom source.length .start source

end Token

end Weave
