import Weave.Decimal.Read
import Weave.Expr
import Weave.Text.Escape
import Weave.Token.Scan

namespace Weave

/-!
# Reading expressions from tokens

A reader of tokens takes what it understands from the front of the token list and
leaves the rest.  The list ends with the token that marks the end of the source,
which is never taken away.

The grammar is layered: conditionals, defaults, comparisons, sums, products, and
operands with their selectors, calls and infix words.  `Grammar.step` builds all
layers from a grammar for what is nested inside them.  Nested expressions always
start behind at least one taken token, so a grammar built from as many steps as
there are tokens reads every expression.
-/

/-- A reader takes tokens and may refuse. -/
abbrev Reader := StateT (List Token) (Except ParseFault)

namespace Reader

/-- The next token, which stays. -/
def peek : Reader Token := do
  return (← get).headD ⟨.finish, "", .nowhere⟩

/-- Take the next token; the end of the source stays. -/
def take : Reader Token := do
  let token ← peek
  if token.kind != .finish then
    modify List.tail
  return token

/-- Take a token of a kind, or refuse. -/
def expect (kind : Token.Kind) : Reader Token := do
  let token ← peek
  if token.kind == kind then
    take
  else
    throw (.expected kind token.kind token.position)

/-- Take the next token if it is of a kind. -/
def accept (kind : Token.Kind) : Reader Bool := do
  if (← peek).kind == kind then
    let _ ← take
    return true
  else
    return false

/-- Try a reading; if it is refused, nothing has been taken. -/
def attempt (reader : Reader α) : Reader (Option α) := fun tokens =>
  match reader tokens with
  | .ok (value, rest) => .ok (some value, rest)
  | .error fault => if fault.isRecoverable then .ok (none, tokens) else .error fault

end Reader

open Reader

/-- Items with commas between them, up to the token that closes them; a comma is missed first. -/
def Reader.itemsUntil (close : Token.Kind) (item : Reader α) : Nat → Reader (List α)
  | 0 => throw .exhausted
  | bound + 1 => do
    let first ← item
    if (← accept close) then
      return [first]
    else
      let _ ← expect .comma
      return first :: (← itemsUntil close item bound)

/-- Items with commas between them, up to the token that closes them; the close is missed first. -/
def Reader.itemsThen (close : Token.Kind) (item : Reader α) : Nat → Reader (List α)
  | 0 => throw .exhausted
  | bound + 1 => do
    let first ← item
    if (← accept .comma) then
      return first :: (← itemsThen close item bound)
    else
      let _ ← expect close
      return [first]

/-- Items, unless the bracket closes at once. -/
def Reader.optional (close : Token.Kind) (items : Reader (List α)) : Reader (List α) := do
  if (← accept close) then
    return []
  else
    items

/-- Read a type with its arguments. -/
def TypeSpec.reader : Nat → Reader TypeSpec
  | 0 => throw .exhausted
  | bound + 1 => do
    let name ← expect .word
    if (← accept .less) then
      return .mk name.lexeme (← itemsThen .greater (TypeSpec.reader bound) bound)
    else
      return .mk name.lexeme []

/-! ## Interpolated strings -/

/-- The text up to the parenthesis that closes the open ones, and what follows it. -/
def closeParens : Nat → List Char → Option (List Char × List Char)
  | _, [] => none
  | depth, character :: rest =>
    if character = ')' && depth ≤ 1 then some ([], rest)
    else
      let deeper :=
        if character = '(' then depth + 1 else if character = ')' then depth - 1 else depth
      (closeParens deeper rest).map fun (inner, left) => (character :: inner, left)

def interpolationMark : List Char :=
  ['$', '(']

/-- The parts of an interpolated string; the fuel bounds the number of interpolations. -/
def interpolationParts (parse : List Char → Except ParseFault Expr) :
    Nat → List Char → Except ParseFault (List Expr)
  | 0, _ => .error .exhausted
  | fuel + 1, content =>
    match Text.cutAt? interpolationMark content with
    | none => .ok (if content.isEmpty then [] else [.text (String.ofList content)])
    | some (before, opened) =>
      match closeParens 1 opened with
      | none => .error .unclosedInterpolation
      | some (inner, rest) => do
        let embedded ← parse inner
        let parts ← interpolationParts parse fuel rest
        let literal := if before.isEmpty then [] else [.text (String.ofList before)]
        return literal ++ embedded :: parts

/-- Read a text with expressions inside. -/
def interpolated (parse : List Char → Except ParseFault Expr) (content : List Char) :
    Except ParseFault Expr := do
  match ← interpolationParts parse (content.length + 1) content with
  | [] => return .text ""
  | [.text value] => return .text value
  | parts => return .template parts

/-- Read what a string in quotes stands for. -/
def stringLiteral (parse : List Char → Except ParseFault Expr) (lexeme : String) :
    Except ParseFault Expr :=
  match Text.Escape.unquote lexeme with
  | none => .error .unreadableEscape
  | some value =>
    if Text.contains value.toList interpolationMark then interpolated parse value.toList
    else .ok (.text value)

/-! ## The grammar -/

/-- Readers for what is nested inside an expression. -/
structure Grammar where
  expression : Reader Expr
  operand : Reader Expr

/-- The function that an infix word calls. -/
def infixFunction : String → String
  | "map" => "_infix_map"
  | "reduce" => "_infix_reduce"
  | "filter" => "_infix_filter"
  | "flatMap" => "_infix_flatMap"
  | "distinctBy" => "_infix_distinctBy"
  | "to" => "_infix_to"
  | "and" => "_binary_and"
  | "or" => "_binary_or"
  | word => word

/-- Words that end an operand. -/
def endsOperand (word : String) : Bool :=
  ["else", "when", "default", "match", "case", "var"].contains word

/-- Which tokens are operators, and what they build. -/
abbrev Operators := Token → Option (Expr → Expr → Expr)

def defaultOperators : Operators := fun token =>
  if token.kind == .defaultWord then some .orElse else none

def comparisonOperators : Operators := fun token =>
  match token.kind with
  | .equal => some (.binary "_binary_eq")
  | .notEqual => some (.binary "_binary_neq")
  | .greater => some (.binary "_binary_gt")
  | .less => some (.binary "_binary_lt")
  | .greaterEqual => some (.binary "_binary_gte")
  | .lessEqual => some (.binary "_binary_lte")
  | _ => none

/-- Sum, concatenation and difference; a sum remembers where it is written. -/
def additiveOperators : Operators := fun token =>
  match token.kind with
  | .plus => some fun left right => .call (.name "_binary_plus" token.position) [left, right]
  | .concat => some (.binary "_binary_concat")
  | .diff => some (.binary "_binary_diff")
  | _ => none

def multiplicativeOperators : Operators := fun token =>
  match token.kind with
  | .star => some (.binary "_binary_times")
  | .slash => some (.binary "_binary_divide")
  | _ => none

/-- Continue a chain of operators of one layer, which group to the left. -/
def chainFrom (operators : Operators) (item : Reader Expr) : Nat → Expr → Reader Expr
  | 0, _ => throw .exhausted
  | bound + 1, left => do
    match operators (← peek) with
    | none => return left
    | some combine =>
      let _ ← take
      let right ← item
      chainFrom operators item bound (combine left right)

/-- Items of the layer below with the operators of a layer between them. -/
def chain (operators : Operators) (item : Reader Expr) (bound : Nat) : Reader Expr := do
  let left ← item
  chainFrom operators item bound left

namespace Grammar

variable (grammar : Grammar) (parse : List Char → Except ParseFault Expr) (bound : Nat)

/-- Read a parameter, with a default or a type. -/
def parameter : Reader (Parameter Expr) := do
  let name ← expect .word
  if (← accept .assign) then
    return ⟨name.lexeme, some (← grammar.expression), none⟩
  else
    return ⟨name.lexeme, none, none⟩

/-- The parameters of a lambda after their opening parenthesis. -/
def parameters : Reader (List (Parameter Expr)) :=
  optional .closeParen (itemsThen .closeParen grammar.parameter bound)

/-- A lambda: parameters in parentheses, an arrow and a body. -/
def lambda : Reader Expr := do
  let _ ← expect .openParen
  let parameters ← grammar.parameters bound
  let _ ← expect .arrow
  return .lambda parameters (← grammar.expression)

/-- Read a lambda in parentheses. -/
def enclosedLambda : Reader Expr := do
  let _ ← expect .openParen
  let _ ← expect .openParen
  let parameters ← grammar.parameters bound
  let _ ← expect .arrow
  let body ← grammar.expression
  let _ ← expect .closeParen
  return .lambda parameters body

/-- Read an expression in parentheses. -/
def enclosed : Reader Expr := do
  let _ ← take
  let inner ← grammar.expression
  let _ ← expect .closeParen
  return inner

/-- What starts with a parenthesis: a lambda if it can be read as one. -/
def parenthesis : Reader Expr := do
  match ← attempt (grammar.lambda bound) with
  | some expression => return expression
  | none =>
    match ← attempt (grammar.enclosedLambda bound) with
    | some expression => return expression
    | none => grammar.enclosed

/-- Read a string. -/
def string : Reader Expr := do
  let token ← take
  liftM (stringLiteral parse token.lexeme)

/-- Read the key of a field. -/
def key : Reader Expr := do
  match (← peek).kind with
  | .string => string parse
  | .openParen => grammar.enclosed
  | _ => return .text (← expect .word).lexeme

/-- Read a key and its value. -/
def field : Reader (Expr × Expr) := do
  let key ← grammar.key parse
  let _ ← expect .colon
  return (key, ← grammar.expression)

/-- Read an object in braces. -/
def object : Reader Expr := do
  let _ ← expect .openBrace
  return .object (← optional .closeBrace (itemsUntil .closeBrace (grammar.field parse) bound))

/-- Read a list in brackets. -/
def list : Reader Expr := do
  let _ ← expect .openBracket
  return .list (← optional .closeBracket (itemsUntil .closeBracket grammar.expression bound))

/-- An expression without selectors, calls and operators. -/
def primary : Reader Expr := do
  let token ← peek
  match token.kind with
  | .openBrace => grammar.object parse bound
  | .openBracket => grammar.list bound
  | .string => string parse
  | .number =>
    let _ ← take
    return .number ((Decimal.readFloat? token.lexeme.toList).getD 0.0)
  | .boolean =>
    let _ ← take
    return .boolean (token.lexeme == "true")
  | .nullWord =>
    let _ ← take
    return .null
  | .word =>
    let _ ← take
    return .name token.lexeme token.position
  | .dollar =>
    let _ ← take
    return .placeholder token.lexeme.length token.position
  | .openParen => grammar.parenthesis bound
  | kind => throw (.unexpectedToken kind token.position)

/-- Read what stands behind a dot. -/
def selector : Reader Selector := do
  match (← peek).kind with
  | .star =>
    let _ ← take
    return .every (← expect .word).lexeme
  | .atSign =>
    let _ ← take
    return .attribute (← expect .word).lexeme
  | _ => return .key (← expect .word).lexeme

/-- Read the arguments of a call. -/
def arguments : Reader (List Expr) := do
  let _ ← expect .openParen
  optional .closeParen (itemsUntil .closeParen grammar.expression bound)

/-- A selector, a call or an index behind an expression, if there is one. -/
def access? (left : Expr) : Reader (Option Expr) := do
  match (← peek).kind with
  | .dot =>
    let _ ← take
    return some (.property left (← selector) false)
  | .safeDot =>
    let _ ← take
    return some (.property left (.key (← expect .word).lexeme) true)
  | .openParen => return some (.call left (← grammar.arguments bound))
  | .openBracket =>
    let _ ← take
    let index ← grammar.expression
    let _ ← expect .closeBracket
    return some (.index left index)
  | _ => return none

/-- Read what a case matches. -/
def matchPattern : Reader (MatchPattern Expr) := do
  let (binding, matcher) ←
    if (← peek).isWord "var" then
      let _ ← take
      pure (some (← expect .word).lexeme, none)
    else
      pure (none, some (← grammar.expression))
  if (← peek).isWord "when" then
    let _ ← take
    return ⟨binding, matcher, some (← grammar.expression)⟩
  else
    return ⟨binding, matcher, none⟩

/-- Read a case with its result. -/
def matchCase : Reader (MatchCase Expr) := do
  let token ← peek
  if token.isWord "case" then
    let _ ← take
    let pattern ← grammar.matchPattern
    let _ ← expect .arrow
    return ⟨some pattern, ← grammar.expression⟩
  else if token.isWord "else" then
    let _ ← take
    let _ ← expect .arrow
    return ⟨none, ← grammar.expression⟩
  else
    throw (.notACase token.position)

/-- The cases of a match up to the closing brace; commas between them may be left out. -/
def matchCases : Nat → Reader (List (MatchCase Expr))
  | 0 => throw .exhausted
  | bound + 1 => do
    if (← accept .closeBrace) then
      return []
    else
      let first ← grammar.matchCase
      let _ ← accept .comma
      return first :: (← matchCases bound)

/-- A coercion, an infix call or a match behind an expression, if there is one. -/
def wordSuffix? (left : Expr) : Reader (Option Expr) := do
  let token ← peek
  if token.kind != .word then
    return none
  else if token.lexeme == "as" then
    let _ ← take
    let target ← TypeSpec.reader bound
    if (← peek).kind == .openBrace then
      return some (.coercion left target (some (← grammar.expression)))
    else
      return some (.coercion left target none)
  else if token.lexeme == "match" then
    let _ ← take
    let _ ← expect .openBrace
    let cases ← grammar.matchCases bound
    if cases.isEmpty then
      throw .noCases
    else
      return some (.matching left cases)
  else if endsOperand token.lexeme then
    return none
  else
    let _ ← take
    let argument ← if token.lexeme == "to" then plainOperand else grammar.operand
    return some (.binary (infixFunction token.lexeme) left argument)
where
  plainOperand : Reader Expr := do
    let first ← grammar.primary parse bound
    plainSuffixes bound first
  /-- Selectors, calls and indices behind an expression. -/
  plainSuffixes : Nat → Expr → Reader Expr
    | 0, _ => throw .exhausted
    | fuel + 1, left => do
      match ← grammar.access? bound left with
      | some longer => plainSuffixes fuel longer
      | none => return left

/-- Everything that may stand behind an expression. -/
def suffixes : Nat → Expr → Reader Expr
  | 0, _ => throw .exhausted
  | fuel + 1, left => do
    match ← grammar.access? bound left with
    | some longer => suffixes fuel longer
    | none =>
      match ← grammar.wordSuffix? parse bound left with
      | some longer => suffixes fuel longer
      | none => return left

/-- A primary expression with everything that stands behind it. -/
def operandLayer : Reader Expr := do
  let first ← grammar.primary parse bound
  grammar.suffixes parse bound bound first

/-- Read operands between operators, by rank. -/
def operatorLayers : Reader Expr :=
  let product := chain multiplicativeOperators (grammar.operandLayer parse bound) bound
  let sum := chain additiveOperators product bound
  let comparison := chain comparisonOperators sum bound
  chain defaultOperators comparison bound

/-- Read a conditional or an operation. -/
def expressionLayer : Reader Expr := do
  if (← peek).isWord "if" then
    let _ ← take
    let _ ← expect .openParen
    let condition ← grammar.expression
    let _ ← expect .closeParen
    let whenTrue ← grammar.expression
    let token ← peek
    if token.isWord "else" then
      let _ ← take
      return .conditional condition whenTrue (← grammar.expression)
    else
      throw (.missingElse token.position)
  else
    grammar.operatorLayers parse bound

/-- The grammar whose nested expressions are read by the given one. -/
def step : Grammar where
  expression := grammar.expressionLayer parse bound
  operand := grammar.operandLayer parse bound

/-- The grammar to a depth of nesting. -/
def upTo (parse : List Char → Except ParseFault Expr) : Nat → Grammar
  | 0 => ⟨throw .exhausted, throw .exhausted⟩
  | bound + 1 => (upTo parse bound).step parse (bound + 1)

end Grammar

namespace Expr

/-- An expression followed by the end of the source. -/
def ofTokens (parse : List Char → Except ParseFault Expr) (tokens : List Token) :
    Except ParseFault Expr := do
  let (expression, rest) ← (Grammar.upTo parse tokens.length).expression tokens
  match rest with
  | token :: _ =>
    if token.kind == .finish then
      return expression
    else
      throw (.trailingTokens token.position)
  | [] => return expression

/-- Read an expression with at most the given depth of interpolations. -/
def parseWithin : Nat → List Char → Except ParseFault Expr
  | 0, _ => .error .exhausted
  | depth + 1, source => do
    let tokens ← Token.scan source
    ofTokens (parseWithin depth) tokens

/--
Read an expression.  Every interpolation lies inside a shorter text, so their
depth is below the length of the source.
-/
def parse (source : List Char) : Except ParseFault Expr :=
  parseWithin (source.length + 1) source

/-- Read the content of a string literal with its interpolations. -/
def parseInterpolated (content : List Char) : Except ParseFault Expr :=
  interpolated (parseWithin (content.length + 1)) content

end Expr

end Weave
