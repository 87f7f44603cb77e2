import Weave.Position

namespace Weave

/-!
# Tokens

The words and signs a source is made of.  A token keeps the text it was read
from, so that the tokens and the gaps between them make up the source.
-/

/-- The kinds of tokens. -/
inductive Token.Kind where
  | number
  | string
  | diff
  | safeDot
  | concat
  | greaterEqual
  | lessEqual
  | equal
  | notEqual
  | arrow
  | slash
  | greater
  | less
  | openBrace
  | closeBrace
  | openBracket
  | closeBracket
  | openParen
  | closeParen
  | colon
  | comma
  | dot
  | plus
  | star
  | atSign
  | assign
  | dollar
  | word
  | defaultWord
  | boolean
  | nullWord
  | finish
  deriving Repr, DecidableEq, Inhabited

def Token.Kind.name : Token.Kind → String
  | .number => "NUMBER"
  | .string => "STRING"
  | .diff => "DIFF"
  | .safeDot => "SAFE_DOT"
  | .concat => "CONCAT"
  | .greaterEqual => "GTE"
  | .lessEqual => "LTE"
  | .equal => "EQ"
  | .notEqual => "NEQ"
  | .arrow => "ARROW"
  | .slash => "DIV"
  | .greater => "GT"
  | .less => "LT"
  | .openBrace => "LBRACE"
  | .closeBrace => "RBRACE"
  | .openBracket => "LBRACKET"
  | .closeBracket => "RBRACKET"
  | .openParen => "LPAREN"
  | .closeParen => "RPAREN"
  | .colon => "COLON"
  | .comma => "COMMA"
  | .dot => "DOT"
  | .plus => "PLUS"
  | .star => "STAR"
  | .atSign => "AT"
  | .assign => "EQUAL"
  | .dollar => "DOLLAR"
  | .word => "IDENT"
  | .defaultWord => "DEFAULT"
  | .boolean => "BOOLEAN"
  | .nullWord => "NULL"
  | .finish => "EOF"

/-- A token: its kind, the text it was read from and where that text starts. -/
structure Token where
  kind : Token.Kind
  lexeme : String
  position : Position
  deriving Repr, DecidableEq, Inhabited

namespace Token

/-- The text of a token whose kind does not already determine it. -/
def text? (token : Token) : Option String :=
  match token.kind with
  | .defaultWord | .nullWord | .finish => none
  | _ => some token.lexeme

def isWord (token : Token) (word : String) : Bool :=
  token.kind == .word && token.lexeme == word

end Token

end Weave
