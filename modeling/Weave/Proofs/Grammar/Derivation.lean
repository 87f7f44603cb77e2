import Mathlib.Order.Filter.AtTopBot.Basic
import Weave.Proofs.Reader

namespace Weave

open List

/-!
# The grammar as a relation

`Derives parse hole place tokens value next` says that the tokens are read as the value where the
grammar asks for a `place`, in front of the token `next`.  The rules follow the readers of the
grammar, but for what a reader tries in vain.  An operand and a chain of operators are derived as
far as they have been read, so `a + b` is a sum in front of a further sign as well as in front of
what ends the sum.

A hole is a token that stands for a part of an expression which is known without its tokens.
-/

/-! ## Tokens that end something -/

/-- No selector, call or index starts with the token. -/
def Token.endsPlain (token : Token) : Bool :=
  !(token.kind == .dot || token.kind == .safeDot || token.kind == .openParen ||
    token.kind == .openBracket)

/-- Nothing that belongs to the operand in front of it starts with the token. -/
def Token.endsOperand (token : Token) : Bool :=
  token.endsPlain &&
    (token.kind != .word || token.lexeme != "match" && Weave.endsOperand token.lexeme)

theorem Token.isWord_iff {token : Token} :
    token.isWord word ↔ token.kind = .word ∧ token.lexeme = word := by
  simp [Token.isWord]

/-- The operators of a rank, from the ones that bind tightest. -/
def operatorsAt : Nat → Operators
  | 0 => multiplicativeOperators
  | 1 => additiveOperators
  | 2 => comparisonOperators
  | _ => defaultOperators

/-- The layers of operators above operands. -/
def Grammar.layer (grammar : Grammar) (parse : TextParser) (bound : Nat) :
    Nat → Reader Expr
  | 0 => grammar.operandLayer parse bound
  | rank + 1 => chain (operatorsAt rank) (grammar.layer parse bound rank) bound

theorem Grammar.operatorLayers_eq_layer (grammar : Grammar)
    (parse : TextParser) (bound : Nat) :
    grammar.operatorLayers parse bound = grammar.layer parse bound 4 :=
  rfl

/-! ## Places -/

/-- The brackets around items. -/
inductive Bracket where
  | round
  | square
  | curly
  | angle

/-- The kind of token that closes a bracket. -/
def Bracket.close : Bracket → Token.Kind
  | .round => .closeParen
  | .square => .closeBracket
  | .curly => .closeBrace
  | .angle => .greater

/-- How much of an expression is read: a primary expression, an operand without or with words
behind it, chains of operators up to a rank, or a whole expression. -/
inductive Level where
  | primary
  | plain
  | layer (rank : Nat)
  | whole

namespace Level

/-- The token ends what is read at the level as far as it goes. -/
def Ends : Level → Token → Prop
  | .plain, token => token.endsPlain = true
  | .layer 0, token => token.endsOperand = true
  | .layer (rank + 1), token => operatorsAt rank token = none
  | _, _ => True

/-- The level of an operand, with or without words behind it. -/
def IsOperand (level : Level) : Prop := level = .plain ∨ level = .layer 0

end Level

/-- What the grammar asks for. -/
inductive Place where
  | expr (level : Level)
  | key
  | field
  | parameter
  | type
  | pattern
  | alternative
  | alternatives
  | items (bracket : Bracket) (item : Place)
  | list (bracket : Bracket) (item : Place)

/-- What is read at a place. -/
@[reducible] def Place.Value : Place → Type
  | .expr _ | .key => Expr
  | .field => Expr × Expr
  | .parameter => Parameter Expr
  | .type => TypeSpec
  | .pattern => MatchPattern Expr
  | .alternative => MatchCase Expr
  | .alternatives => List (MatchCase Expr)
  | .items _ item | .list _ item => List item.Value

/-- The token ends what is read at the place as far as it goes. -/
def Place.Ends : Place → Token → Prop
  | .expr level, token => level.Ends token
  | _, _ => True

/-- A part of an expression: its level, what it is read as, and the token behind it. -/
structure Hole where
  level : Level
  value : Expr
  next : Token

/-! ## Rules -/

/-- The value of a token that is an expression of its own. -/
def Token.literal (parse : List Char → Except ParseFault Expr) (token : Token) :
    Except ParseFault Expr :=
  match token.kind with
  | .string => stringLiteral parse token.lexeme
  | .number => .ok (.number ((Decimal.readFloat? token.lexeme.toList).getD 0.0))
  | .boolean => .ok (.boolean (token.lexeme == "true"))
  | .nullWord => .ok .null
  | .word => .ok (.name token.lexeme token.position)
  | .dollar => .ok (.placeholder token.lexeme.length token.position)
  | kind => .error (.unexpectedToken kind token.position)

/-- What is written behind a dot. -/
inductive Selects : List Token → Selector → Prop
  | key (isWord : word.kind = .word) : Selects [word] (.key word.lexeme)
  | every {star word : Token} (isStar : star.kind = .star) (isWord : word.kind = .word) :
      Selects [star, word] (.every word.lexeme)
  | marked (isSign : sign.kind = .atSign) (isWord : word.kind = .word) :
      Selects [sign, word] (.attribute word.lexeme)

variable (parse : List Char → Except ParseFault Expr) (hole : Option Hole)

/-- The tokens are read as the value at the place, in front of the next token. -/
inductive Derives : (place : Place) → List Token → place.Value → Token → Prop
  | hole {value : Expr} {next : Token} (isHole : hole = some ⟨level, value, next⟩)
      (marks : token.kind = .finish) :
      Derives (.expr level) [token] value next
  -- Primary expressions
  | literal {next : Token} {value : Expr} (isRead : token.literal parse = .ok value) :
      Derives (.expr .primary) [token] value next
  | list {next : Token} {inner : List Token} {elements : List Expr}
      (opens : opening.kind = .openBracket)
      (inside : Derives (.list .square (.expr .whole)) inner elements next) :
      Derives (.expr .primary) (opening :: inner) (.list elements) next
  | object {next : Token} {inner : List Token} {fields : List (Expr × Expr)}
      (opens : opening.kind = .openBrace)
      (inside : Derives (.list .curly .field) inner fields next) :
      Derives (.expr .primary) (opening :: inner) (.object fields) next
  | lambda {next : Token} {parameters : List (Parameter Expr)} {body : Expr}
      (opens : opening.kind = .openParen)
      (binders : Derives (.list .round .parameter) names parameters arrow)
      (isArrow : arrow.kind = .arrow) (inside : Derives (.expr .whole) tokens body next) :
      Derives (.expr .primary) (opening :: (names ++ arrow :: tokens)) (.lambda parameters body)
        next
  | enclosed {next : Token} {inner : List Token} {value : Expr} (opens : opening.kind = .openParen)
      (closes : closing.kind = .closeParen) (inside : Derives (.expr .whole) inner value closing)
      (noBinder : next.kind = .arrow → ∀ word, inner = [word] → word.kind ≠ .word) :
      Derives (.expr .primary) (opening :: (inner ++ [closing])) value next
  -- Operands
  | start {value : Expr} {next : Token} (isOperand : level.IsOperand)
      (first : Derives (.expr .primary) tokens value next) :
      Derives (.expr level) tokens value next
  | property {left : Expr} {next : Token} (isOperand : level.IsOperand)
      (base : Derives (.expr level) tokens left dot) (isDot : dot.kind = .dot)
      (selects : Selects names selector) :
      Derives (.expr level) (tokens ++ dot :: names) (.property left selector false) next
  | safe {left : Expr} {next : Token} (isOperand : level.IsOperand)
      (base : Derives (.expr level) tokens left dot) (isDot : dot.kind = .safeDot)
      (isWord : word.kind = .word) :
      Derives (.expr level) (tokens ++ [dot, word]) (.property left (.key word.lexeme) true) next
  | index {inner : List Token} {left value : Expr} {next : Token} (isOperand : level.IsOperand)
      (base : Derives (.expr level) tokens left opening) (opens : opening.kind = .openBracket)
      (closes : closing.kind = .closeBracket)
      (inside : Derives (.expr .whole) inner value closing) :
      Derives (.expr level) (tokens ++ opening :: (inner ++ [closing])) (.index left value) next
  | call {inner : List Token} {left : Expr} {arguments : List Expr} {next : Token}
      (isOperand : level.IsOperand) (base : Derives (.expr level) tokens left opening)
      (opens : opening.kind = .openParen)
      (inside : Derives (.list .round (.expr .whole)) inner arguments next) :
      Derives (.expr level) (tokens ++ opening :: inner) (.call left arguments) next
  | coercion {left : Expr} {type : TypeSpec} {next : Token}
      (base : Derives (.expr (.layer 0)) tokens left word) (isAs : word.isWord "as")
      (target : Derives .type names type next) (noOptions : next.kind ≠ .openBrace) :
      Derives (.expr (.layer 0)) (tokens ++ word :: names) (.coercion left type none) next
  | coercionWith {inner : List Token} {left options : Expr} {type : TypeSpec} {next : Token}
      (base : Derives (.expr (.layer 0)) tokens left word) (isAs : word.isWord "as")
      (target : Derives .type names type opening) (opens : opening.kind = .openBrace)
      (inside : Derives (.expr .whole) (opening :: inner) options next) :
      Derives (.expr (.layer 0)) (tokens ++ word :: (names ++ opening :: inner))
        (.coercion left type (some options)) next
  | matching {inner : List Token} {left : Expr} {cases : List (MatchCase Expr)} {next : Token}
      (base : Derives (.expr (.layer 0)) tokens left word) (isMatch : word.isWord "match")
      (opens : opening.kind = .openBrace) (inside : Derives .alternatives inner cases next)
      (notEmpty : cases ≠ []) :
      Derives (.expr (.layer 0)) (tokens ++ word :: opening :: inner) (.matching left cases) next
  | infixCall {left right : Expr} {next : Token}
      (base : Derives (.expr (.layer 0)) tokens left word) (isWord : word.kind = .word)
      (notAs : word.lexeme ≠ "as") (calls : endsOperand word.lexeme = false)
      (isLevel : level = if word.lexeme = "to" then .plain else .layer 0)
      (argument : Derives (.expr level) others right next) (ends : level.Ends next) :
      Derives (.expr (.layer 0)) (tokens ++ word :: others)
        (.binary (infixFunction word.lexeme) left right) next
  -- Chains of operators
  | rise {value : Expr} {next : Token} (item : Derives (.expr (.layer rank)) tokens value next)
      (ends : (Level.layer rank).Ends next) :
      Derives (.expr (.layer (rank + 1))) tokens value next
  | join {left right : Expr} {combine : Expr → Expr → Expr} {next : Token}
      (base : Derives (.expr (.layer (rank + 1))) tokens left operator)
      (combines : operatorsAt rank operator = some combine)
      (item : Derives (.expr (.layer rank)) others right next)
      (ends : (Level.layer rank).Ends next) :
      Derives (.expr (.layer (rank + 1))) (tokens ++ operator :: others) (combine left right)
        next
  -- Expressions
  | expression {value : Expr} {next : Token} (notIf : (ahead tokens).isWord "if" = false)
      (whole : Derives (.expr (.layer 4)) tokens value next) (ends : (Level.layer 4).Ends next) :
      Derives (.expr .whole) tokens value next
  | conditional {inner : List Token} {condition whenTrue whenFalse : Expr} {next : Token}
      (isIf : word.isWord "if") (opens : opening.kind = .openParen)
      (closes : closing.kind = .closeParen) (isElse : otherwise.isWord "else")
      (inside : Derives (.expr .whole) inner condition closing)
      (first : Derives (.expr .whole) thenTokens whenTrue otherwise)
      (second : Derives (.expr .whole) elseTokens whenFalse next) :
      Derives (.expr .whole)
        (word :: opening :: (inner ++ closing :: (thenTokens ++ otherwise :: elseTokens)))
        (.conditional condition whenTrue whenFalse) next
  -- Items between brackets
  | last {value : item.Value} {next : Token} (closes : closing.kind = bracket.close)
      (ends : item.Ends closing) (only : Derives item tokens value closing) :
      Derives (.items bracket item) (tokens ++ [closing]) [value] next
  | more {value : item.Value} {values : List item.Value} {next : Token}
      (isComma : comma.kind = .comma) (ends : item.Ends comma)
      (first : Derives item tokens value comma)
      (rest : Derives (.items bracket item) others values next) :
      Derives (.items bracket item) (tokens ++ comma :: others) (value :: values) next
  | empty {next : Token} (closes : closing.kind = bracket.close) :
      Derives (.list bracket item) [closing] [] next
  | filled {values : List item.Value} {next : Token}
      (notClosed : (ahead tokens).kind ≠ bracket.close)
      (items : Derives (.items bracket item) tokens values next) :
      Derives (.list bracket item) tokens values next
  -- Fields and parameters
  | word {next : Token} (isWord : name.kind = .word) :
      Derives .key [name] (.text name.lexeme) next
  | quoted {next : Token} {value : Expr} (isString : token.kind = .string)
      (isRead : token.literal parse = .ok value) :
      Derives .key [token] value next
  | computed {next : Token} {inner : List Token} {value : Expr} (opens : opening.kind = .openParen)
      (closes : closing.kind = .closeParen) (inside : Derives (.expr .whole) inner value closing) :
      Derives .key (opening :: (inner ++ [closing])) value next
  | field {key value : Expr} {next : Token} (isColon : colon.kind = .colon)
      (named : Derives .key names key colon) (inside : Derives (.expr .whole) tokens value next) :
      Derives .field (names ++ colon :: tokens) (key, value) next
  | parameter {next : Token} (isWord : name.kind = .word) (noDefault : next.kind ≠ .assign) :
      Derives .parameter [name] ⟨name.lexeme, none, none⟩ next
  | fallback {next : Token} {value : Expr} (isWord : name.kind = .word)
      (isAssign : assign.kind = .assign) (inside : Derives (.expr .whole) tokens value next) :
      Derives .parameter (name :: assign :: tokens) ⟨name.lexeme, some value, none⟩ next
  -- Types
  | type {next : Token} (isWord : name.kind = .word) (noArguments : next.kind ≠ .less) :
      Derives .type [name] (.mk name.lexeme []) next
  | generic {next : Token} {inner : List Token} {arguments : List TypeSpec}
      (isWord : name.kind = .word) (opens : opening.kind = .less)
      (inside : Derives (.items .angle .type) inner arguments next) :
      Derives .type (name :: opening :: inner) (.mk name.lexeme arguments) next
  -- Matches
  | binding {next : Token} (isVar : word.isWord "var") (isWord : name.kind = .word)
      (noGuard : next.isWord "when" = false) :
      Derives .pattern [word, name] ⟨some name.lexeme, none, none⟩ next
  | bindingWhen {next : Token} {guard : Expr} (isVar : word.isWord "var")
      (isWord : name.kind = .word) (isWhen : mark.isWord "when")
      (inside : Derives (.expr .whole) others guard next) :
      Derives .pattern (word :: name :: mark :: others)
        ⟨some name.lexeme, none, some guard⟩ next
  | matcher {value : Expr} {next : Token} (notVar : (ahead tokens).isWord "var" = false)
      (noGuard : next.isWord "when" = false) (base : Derives (.expr .whole) tokens value next) :
      Derives .pattern tokens ⟨none, some value, none⟩ next
  | matcherWhen {value guard : Expr} {next : Token} (notVar : (ahead tokens).isWord "var" = false)
      (isWhen : mark.isWord "when") (base : Derives (.expr .whole) tokens value mark)
      (inside : Derives (.expr .whole) others guard next) :
      Derives .pattern (tokens ++ mark :: others) ⟨none, some value, some guard⟩ next
  | case {pattern : MatchPattern Expr} {result : Expr} {next : Token}
      (isCase : word.isWord "case") (isArrow : arrow.kind = .arrow)
      (matched : Derives .pattern names pattern arrow)
      (inside : Derives (.expr .whole) tokens result next) :
      Derives .alternative (word :: (names ++ arrow :: tokens)) ⟨some pattern, result⟩
        next
  | otherwise {result : Expr} {next : Token} (isElse : word.isWord "else")
      (isArrow : arrow.kind = .arrow) (inside : Derives (.expr .whole) tokens result next) :
      Derives .alternative (word :: arrow :: tokens) ⟨none, result⟩ next
  | noCases {next : Token} (closes : closing.kind = .closeBrace) :
      Derives .alternatives [closing] [] next
  | cases {first : MatchCase Expr} {more : List (MatchCase Expr)} {next : Token}
      (isWord : (ahead tokens).kind = .word) (noComma : (ahead others).kind ≠ .comma)
      (base : Derives .alternative tokens first (ahead others))
      (rest : Derives .alternatives others more next) :
      Derives .alternatives (tokens ++ others) (first :: more) next
  | separated {first : MatchCase Expr} {more : List (MatchCase Expr)} {next : Token}
      (isWord : (ahead tokens).kind = .word) (isComma : comma.kind = .comma)
      (base : Derives .alternative tokens first comma)
      (rest : Derives .alternatives others more next) :
      Derives .alternatives (tokens ++ comma :: others) (first :: more) next

end Weave
