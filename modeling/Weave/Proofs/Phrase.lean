import Weave.Expr.Parser

namespace Weave

/-!
# Written expressions

A phrase is an expression as it is written down: its names, numerals and texts are
spelled out, and every part that is made of parts stands in parentheses.  `Phrase.toExpr`
is the expression a phrase stands for, without positions, and `Phrase.print` is its text.

The parts of a phrase carry what makes them readable: a name is an identifier and no
keyword, a numeral has digits on both sides of its point, and a text holds nothing that
would have to be escaped.
-/

/-- The words that cannot be used as names. -/
def keywords : List String :=
  ["if", "else", "when", "match", "case", "var", "as", "default", "true", "false", "null"]

/-- Whether characters make up a word. -/
def isIdentifier : List Char → Bool
  | [] => false
  | first :: rest => Token.isWordStart first && rest.all Token.isWordPart

/-- A word that can be used as a name. -/
structure Name where
  letters : List Char
  isWord : isIdentifier letters = true
  isFree : String.ofList letters ∉ keywords

/-- The name as a string. -/
def Name.text (name : Name) : String := String.ofList name.letters

/-- A decimal number as it is written; a number without a fraction has no point. -/
structure Numeral where
  whole : List Char
  fraction : List Char
  hasWhole : whole ≠ []
  isWritten : ∀ digit ∈ whole ++ fraction, Text.isDigit digit = true

namespace Numeral

/-- The characters of a numeral. -/
def characters (numeral : Numeral) : List Char :=
  if numeral.fraction.isEmpty then numeral.whole
  else numeral.whole ++ '.' :: numeral.fraction

/-- The number that all digits of a numeral make up, whatever script they belong to. -/
def digits (numeral : Numeral) : Nat :=
  (numeral.whole ++ numeral.fraction).foldl
    (fun value digit => value * 10 + (Text.digit? digit).getD 0) 0

/-- The float nearest to a numeral. -/
def value (numeral : Numeral) : Float :=
  Decimal.ofDecimal false numeral.digits (-numeral.fraction.length)

end Numeral

/-- Whether a character of a text stands for itself. -/
def isPlainCharacter (character : Char) : Bool :=
  32 ≤ character.toNat && character.toNat ≤ 126 && character != '"' && character != '\'' &&
    character != '\\'

/-- A text in which nothing has to be escaped and nothing is interpolated. -/
structure PlainText where
  characters : List Char
  isPlain : characters.all isPlainCharacter = true
  hasNoMark : Text.contains characters interpolationMark = false

/-- The operators that are written as signs. -/
inductive Operator where
  | equal
  | notEqual
  | greater
  | less
  | greaterEqual
  | lessEqual
  | plus
  | concat
  | diff
  | times
  | divide
  deriving DecidableEq

/-- The function an operator calls. -/
def Operator.function : Operator → String
  | .equal => "_binary_eq"
  | .notEqual => "_binary_neq"
  | .greater => "_binary_gt"
  | .less => "_binary_lt"
  | .greaterEqual => "_binary_gte"
  | .lessEqual => "_binary_lte"
  | .plus => "_binary_plus"
  | .concat => "_binary_concat"
  | .diff => "_binary_diff"
  | .times => "_binary_times"
  | .divide => "_binary_divide"

/-- How a part of a value is asked for. -/
inductive Access where
  | plain
  | every
  | atName
  | safe
  deriving DecidableEq

/-- The expression that asks for a named part. -/
def Access.toExpr (access : Access) (base : Expr) (name : String) : Expr :=
  match access with
  | .plain => .property base (.key name) false
  | .every => .property base (.every name) false
  | .atName => .property base (.attribute name) false
  | .safe => .property base (.key name) true

/-- A type name with its generics. -/
inductive TypeName where
  | mk (name : Name) (generics : List TypeName)

mutual

/-- Written expressions. -/
inductive Phrase where
  | number (numeral : Numeral)
  | text (literal : PlainText)
  | boolean (value : Bool)
  | null
  | name (name : Name)
  | placeholder (isSecond : Bool)
  | list (elements : List Phrase)
  | object (fields : List Field)
  | property (base : Phrase) (access : Access) (name : Name)
  | index (base place : Phrase)
  | call (function : Phrase) (arguments : List Phrase)
  | binary (operator : Operator) (left right : Phrase)
  /-- A call that is written with the function's name between its two arguments. -/
  | infixed (word : Name) (left right : Phrase)
  | orElse (left right : Phrase)
  | conditional (condition whenTrue whenFalse : Phrase)
  | lambda (parameters : List Binder) (body : Phrase)
  | matching (subject : Phrase) (first : Branch) (others : List Branch)
  | coercion (value : Phrase) (target : TypeName)
  | coercionWith (value : Phrase) (target : TypeName) (options : List Field)

/-- Fields of an object, told apart by how their keys are written. -/
inductive Field where
  | word (key : Name) (value : Phrase)
  | text (key : PlainText) (value : Phrase)
  | computed (key value : Phrase)

/-- Parameters of a lambda. -/
inductive Binder where
  | plain (name : Name)
  | defaulting (name : Name) (fallback : Phrase)

/-- Cases of a match. -/
inductive Branch where
  | otherwise (result : Phrase)
  | value (matcher : Phrase) (guard : Option Phrase) (result : Phrase)
  | binding (name : Name) (guard : Option Phrase) (result : Phrase)

end

/-! ## What a phrase stands for -/

mutual

/-- The type specification of a type name. -/
def TypeName.toSpec : TypeName → TypeSpec
  | .mk name generics => .mk name.text (TypeName.toSpecs generics)

/-- The type specifications of type names. -/
def TypeName.toSpecs : List TypeName → List TypeSpec
  | [] => []
  | type :: rest => type.toSpec :: TypeName.toSpecs rest

end

@[simp] theorem TypeName.toSpecs_eq_map (types : List TypeName) :
    TypeName.toSpecs types = types.map TypeName.toSpec := by
  induction types with
  | nil => rfl
  | cons _ _ ih => simp [TypeName.toSpecs, ih]

mutual

/-- The expression of a phrase, which stands nowhere. -/
def Phrase.toExpr : Phrase → Expr
  | .number numeral => .number numeral.value
  | .text literal => .text (String.ofList literal.characters)
  | .boolean value => .boolean value
  | .null => .null
  | .name name => .name name.text .nowhere
  | .placeholder isSecond => .placeholder (if isSecond then 2 else 1) .nowhere
  | .list elements => .list (Phrase.toExprs elements)
  | .object fields => .object (Field.toPairs fields)
  | .property base access name => access.toExpr base.toExpr name.text
  | .index base place => .index base.toExpr place.toExpr
  | .call function arguments => .call function.toExpr (Phrase.toExprs arguments)
  | .binary operator left right => .binary operator.function left.toExpr right.toExpr
  | .infixed word left right => .binary (infixFunction word.text) left.toExpr right.toExpr
  | .orElse left right => .orElse left.toExpr right.toExpr
  | .conditional condition whenTrue whenFalse =>
    .conditional condition.toExpr whenTrue.toExpr whenFalse.toExpr
  | .lambda parameters body => .lambda (Binder.toParameters parameters) body.toExpr
  | .matching subject first others =>
    .matching subject.toExpr (first.toCase :: Branch.toCases others)
  | .coercion value target => .coercion value.toExpr target.toSpec none
  | .coercionWith value target options =>
    .coercion value.toExpr target.toSpec (some (.object (Field.toPairs options)))

/-- The expressions of phrases. -/
def Phrase.toExprs : List Phrase → List Expr
  | [] => []
  | phrase :: rest => phrase.toExpr :: Phrase.toExprs rest

/-- The expression of an optional phrase. -/
def Phrase.toExpr? : Option Phrase → Option Expr
  | none => none
  | some phrase => some phrase.toExpr

/-- The key and the value of a field. -/
def Field.toPair : Field → Expr × Expr
  | .word key value => (.text key.text, value.toExpr)
  | .text key value => (.text (String.ofList key.characters), value.toExpr)
  | .computed key value => (key.toExpr, value.toExpr)

/-- The keys and the values of fields. -/
def Field.toPairs : List Field → List (Expr × Expr)
  | [] => []
  | field :: rest => field.toPair :: Field.toPairs rest

/-- The parameter of a binder. -/
def Binder.toParameter : Binder → Parameter Expr
  | .plain name => ⟨name.text, none, none⟩
  | .defaulting name fallback => ⟨name.text, some fallback.toExpr, none⟩

/-- The parameters of binders. -/
def Binder.toParameters : List Binder → List (Parameter Expr)
  | [] => []
  | binder :: rest => binder.toParameter :: Binder.toParameters rest

/-- The case of a branch. -/
def Branch.toCase : Branch → MatchCase Expr
  | .otherwise result => ⟨none, result.toExpr⟩
  | .value matcher guard result =>
    ⟨some ⟨none, some matcher.toExpr, Phrase.toExpr? guard⟩, result.toExpr⟩
  | .binding name guard result =>
    ⟨some ⟨some name.text, none, Phrase.toExpr? guard⟩, result.toExpr⟩

/-- The cases of branches. -/
def Branch.toCases : List Branch → List (MatchCase Expr)
  | [] => []
  | branch :: rest => branch.toCase :: Branch.toCases rest

end

@[simp] theorem Phrase.toExprs_eq_map (phrases : List Phrase) :
    Phrase.toExprs phrases = phrases.map Phrase.toExpr := by
  induction phrases with
  | nil => rfl
  | cons _ _ ih => simp [Phrase.toExprs, ih]

@[simp] theorem Phrase.toExpr?_eq_map (phrase : Option Phrase) :
    Phrase.toExpr? phrase = phrase.map Phrase.toExpr := by
  cases phrase <;> rfl

@[simp] theorem Field.toPairs_eq_map (fields : List Field) :
    Field.toPairs fields = fields.map Field.toPair := by
  induction fields with
  | nil => rfl
  | cons _ _ ih => simp [Field.toPairs, ih]

@[simp] theorem Binder.toParameters_eq_map (binders : List Binder) :
    Binder.toParameters binders = binders.map Binder.toParameter := by
  induction binders with
  | nil => rfl
  | cons _ _ ih => simp [Binder.toParameters, ih]

@[simp] theorem Branch.toCases_eq_map (branches : List Branch) :
    Branch.toCases branches = branches.map Branch.toCase := by
  induction branches with
  | nil => rfl
  | cons _ _ ih => simp [Branch.toCases, ih]

/-! ## How a phrase is written -/

/-- The keywords. -/
inductive Keyword where
  | ifWord
  | elseWord
  | whenWord
  | matchWord
  | caseWord
  | varWord
  | asWord
  | defaultWord
  | trueWord
  | falseWord
  | nullWord
  deriving DecidableEq

/-- The signs that are no operators. -/
inductive Sign where
  | openParen
  | closeParen
  | openBracket
  | closeBracket
  | openBrace
  | closeBrace
  | comma
  | colon
  | dot
  | safeDot
  | atSign
  | arrow
  | assign
  | dollar
  | dollars
  deriving DecidableEq

/-- The smallest written parts of a phrase. -/
inductive Lexeme where
  | number (numeral : Numeral)
  | text (literal : PlainText)
  | word (name : Name)
  | keyword (keyword : Keyword)
  | operator (operator : Operator)
  | sign (sign : Sign)

/-- The characters of a keyword. -/
def Keyword.characters : Keyword → List Char
  | .ifWord => ['i', 'f']
  | .elseWord => ['e', 'l', 's', 'e']
  | .whenWord => ['w', 'h', 'e', 'n']
  | .matchWord => ['m', 'a', 't', 'c', 'h']
  | .caseWord => ['c', 'a', 's', 'e']
  | .varWord => ['v', 'a', 'r']
  | .asWord => ['a', 's']
  | .defaultWord => ['d', 'e', 'f', 'a', 'u', 'l', 't']
  | .trueWord => ['t', 'r', 'u', 'e']
  | .falseWord => ['f', 'a', 'l', 's', 'e']
  | .nullWord => ['n', 'u', 'l', 'l']

/-- The kind of token a keyword is. -/
def Keyword.kind : Keyword → Token.Kind
  | .defaultWord => .defaultWord
  | .trueWord | .falseWord => .boolean
  | .nullWord => .nullWord
  | _ => .word

/-- The characters of an operator. -/
def Operator.characters : Operator → List Char
  | .equal => ['=', '=']
  | .notEqual => ['!', '=']
  | .greater => ['>']
  | .less => ['<']
  | .greaterEqual => ['>', '=']
  | .lessEqual => ['<', '=']
  | .plus => ['+']
  | .concat => ['+', '+']
  | .diff => ['-', '-']
  | .times => ['*']
  | .divide => ['/']

/-- The kind of token an operator is. -/
def Operator.kind : Operator → Token.Kind
  | .equal => .equal
  | .notEqual => .notEqual
  | .greater => .greater
  | .less => .less
  | .greaterEqual => .greaterEqual
  | .lessEqual => .lessEqual
  | .plus => .plus
  | .concat => .concat
  | .diff => .diff
  | .times => .star
  | .divide => .slash

/-- The characters of a sign. -/
def Sign.characters : Sign → List Char
  | .openParen => ['(']
  | .closeParen => [')']
  | .openBracket => ['[']
  | .closeBracket => [']']
  | .openBrace => ['\x7b']
  | .closeBrace => ['\x7d']
  | .comma => [',']
  | .colon => [':']
  | .dot => ['.']
  | .safeDot => ['?', '.']
  | .atSign => ['@']
  | .arrow => ['-', '>']
  | .assign => ['=']
  | .dollar => ['$']
  | .dollars => ['$', '$']

/-- The kind of token a sign is. -/
def Sign.kind : Sign → Token.Kind
  | .openParen => .openParen
  | .closeParen => .closeParen
  | .openBracket => .openBracket
  | .closeBracket => .closeBracket
  | .openBrace => .openBrace
  | .closeBrace => .closeBrace
  | .comma => .comma
  | .colon => .colon
  | .dot => .dot
  | .safeDot => .safeDot
  | .atSign => .atSign
  | .arrow => .arrow
  | .assign => .assign
  | .dollar | .dollars => .dollar

namespace Lexeme

/-- The characters of a lexeme; texts stand between double quotes. -/
def characters : Lexeme → List Char
  | .number numeral => numeral.characters
  | .text literal => '"' :: literal.characters ++ ['"']
  | .word name => name.letters
  | .keyword fixed => fixed.characters
  | .operator fixed => fixed.characters
  | .sign fixed => fixed.characters

/-- The kind of token a lexeme is. -/
def kind : Lexeme → Token.Kind
  | .number _ => .number
  | .text _ => .string
  | .word _ => .word
  | .keyword fixed => fixed.kind
  | .operator fixed => fixed.kind
  | .sign fixed => fixed.kind

/-- Lexemes with commas between them. -/
def separated : List (List Lexeme) → List Lexeme
  | [] => []
  | [part] => part
  | part :: rest => part ++ .sign .comma :: separated rest

/-- Lexemes between parentheses, unless they are those of a leaf. -/
def enclosed (isLeaf : Bool) (lexemes : List Lexeme) : List Lexeme :=
  if isLeaf then lexemes else .sign .openParen :: (lexemes ++ [.sign .closeParen])

/-- Lexemes one after the other, each followed by a blank. -/
def print (lexemes : List Lexeme) : List Char :=
  lexemes.flatMap fun lexeme => lexeme.characters ++ [' ']

end Lexeme

/-- The lexemes that ask for a named part. -/
def Access.lexemes (access : Access) (name : Name) : List Lexeme :=
  match access with
  | .plain => [.sign .dot, .word name]
  | .every => [.sign .dot, .operator .times, .word name]
  | .atName => [.sign .dot, .sign .atSign, .word name]
  | .safe => [.sign .safeDot, .word name]

mutual

/-- The lexemes of a type name. -/
def TypeName.lexemes : TypeName → List Lexeme
  | .mk name [] => [.word name]
  | .mk name (first :: rest) =>
    .word name :: .operator .less ::
      (Lexeme.separated (first.lexemes :: TypeName.lexemesOf rest) ++ [.operator .greater])

/-- The lexemes of type names. -/
def TypeName.lexemesOf : List TypeName → List (List Lexeme)
  | [] => []
  | type :: rest => type.lexemes :: TypeName.lexemesOf rest

end

@[simp] theorem TypeName.lexemesOf_eq_map (types : List TypeName) :
    TypeName.lexemesOf types = types.map TypeName.lexemes := by
  induction types with
  | nil => rfl
  | cons _ _ ih => simp [TypeName.lexemesOf, ih]

/-- Whether a phrase has no parts. -/
def Phrase.isLeaf : Phrase → Bool
  | .number _ | .text _ | .boolean _ | .null | .name _ | .placeholder _ => true
  | _ => false

mutual

/-- The lexemes of a phrase. -/
def Phrase.lexemes : Phrase → List Lexeme
  | .number numeral => [.number numeral]
  | .text literal => [.text literal]
  | .boolean value => [.keyword (if value then .trueWord else .falseWord)]
  | .null => [.keyword .nullWord]
  | .name name => [.word name]
  | .placeholder isSecond => [.sign (if isSecond then .dollars else .dollar)]
  | .list elements =>
    .sign .openBracket ::
      (Lexeme.separated (Phrase.partsOf elements) ++ [.sign .closeBracket])
  | .object fields =>
    .sign .openBrace :: (Lexeme.separated (Field.lexemesOf fields) ++ [.sign .closeBrace])
  | .property base access name =>
    Lexeme.enclosed base.isLeaf base.lexemes ++ access.lexemes name
  | .index base place =>
    Lexeme.enclosed base.isLeaf base.lexemes ++
      .sign .openBracket ::
        (Lexeme.enclosed place.isLeaf place.lexemes ++ [.sign .closeBracket])
  | .call function arguments =>
    Lexeme.enclosed function.isLeaf function.lexemes ++
      .sign .openParen ::
        (Lexeme.separated (Phrase.partsOf arguments) ++ [.sign .closeParen])
  | .binary operator left right =>
    Lexeme.enclosed left.isLeaf left.lexemes ++
      .operator operator :: Lexeme.enclosed right.isLeaf right.lexemes
  | .infixed word left right =>
    Lexeme.enclosed left.isLeaf left.lexemes ++
      .word word :: Lexeme.enclosed right.isLeaf right.lexemes
  | .orElse left right =>
    Lexeme.enclosed left.isLeaf left.lexemes ++
      .keyword .defaultWord :: Lexeme.enclosed right.isLeaf right.lexemes
  | .conditional condition whenTrue whenFalse =>
    .keyword .ifWord :: .sign .openParen ::
      (Lexeme.enclosed condition.isLeaf condition.lexemes ++
        .sign .closeParen ::
          (Lexeme.enclosed whenTrue.isLeaf whenTrue.lexemes ++
            .keyword .elseWord :: Lexeme.enclosed whenFalse.isLeaf whenFalse.lexemes))
  | .lambda parameters body =>
    .sign .openParen ::
      (Lexeme.separated (Binder.lexemesOf parameters) ++
        .sign .closeParen :: .sign .arrow :: Lexeme.enclosed body.isLeaf body.lexemes)
  | .matching subject first others =>
    Lexeme.enclosed subject.isLeaf subject.lexemes ++
      .keyword .matchWord :: .sign .openBrace ::
        (Lexeme.separated (first.lexemes :: Branch.lexemesOf others) ++
          [.sign .closeBrace])
  | .coercion value target =>
    Lexeme.enclosed value.isLeaf value.lexemes ++ .keyword .asWord :: target.lexemes
  | .coercionWith value target options =>
    Lexeme.enclosed value.isLeaf value.lexemes ++
      .keyword .asWord ::
        (target.lexemes ++
          .sign .openBrace ::
            (Lexeme.separated (Field.lexemesOf options) ++ [.sign .closeBrace]))

/-- The lexemes of the parts of a phrase, each in parentheses unless it is a leaf. -/
def Phrase.partsOf : List Phrase → List (List Lexeme)
  | [] => []
  | phrase :: rest =>
    Lexeme.enclosed phrase.isLeaf phrase.lexemes :: Phrase.partsOf rest

/-- The lexemes of a field. -/
def Field.lexemes : Field → List Lexeme
  | .word key value =>
    .word key :: .sign .colon :: Lexeme.enclosed value.isLeaf value.lexemes
  | .text key value =>
    .text key :: .sign .colon :: Lexeme.enclosed value.isLeaf value.lexemes
  | .computed key value =>
    .sign .openParen ::
      (Lexeme.enclosed key.isLeaf key.lexemes ++
        .sign .closeParen :: .sign .colon ::
          Lexeme.enclosed value.isLeaf value.lexemes)

/-- The lexemes of fields. -/
def Field.lexemesOf : List Field → List (List Lexeme)
  | [] => []
  | field :: rest => field.lexemes :: Field.lexemesOf rest

/-- The lexemes of a parameter. -/
def Binder.lexemes : Binder → List Lexeme
  | .plain name => [.word name]
  | .defaulting name fallback =>
    .word name :: .sign .assign :: Lexeme.enclosed fallback.isLeaf fallback.lexemes

/-- The lexemes of parameters. -/
def Binder.lexemesOf : List Binder → List (List Lexeme)
  | [] => []
  | binder :: rest => binder.lexemes :: Binder.lexemesOf rest

/-- The lexemes of a guard. -/
def Branch.guardLexemes : Option Phrase → List Lexeme
  | none => []
  | some guard => .keyword .whenWord :: Lexeme.enclosed guard.isLeaf guard.lexemes

/-- The lexemes of a case. -/
def Branch.lexemes : Branch → List Lexeme
  | .otherwise result =>
    .keyword .elseWord :: .sign .arrow :: Lexeme.enclosed result.isLeaf result.lexemes
  | .value matcher guard result =>
    .keyword .caseWord ::
      (Lexeme.enclosed matcher.isLeaf matcher.lexemes ++
        (Branch.guardLexemes guard ++
          .sign .arrow :: Lexeme.enclosed result.isLeaf result.lexemes))
  | .binding name guard result =>
    .keyword .caseWord :: .keyword .varWord :: .word name ::
      (Branch.guardLexemes guard ++
        .sign .arrow :: Lexeme.enclosed result.isLeaf result.lexemes)

/-- The lexemes of cases. -/
def Branch.lexemesOf : List Branch → List (List Lexeme)
  | [] => []
  | branch :: rest => branch.lexemes :: Branch.lexemesOf rest

end

/-- The lexemes of a phrase that is part of another one. -/
def Phrase.part (phrase : Phrase) : List Lexeme := Lexeme.enclosed phrase.isLeaf phrase.lexemes

@[simp] theorem Phrase.partsOf_eq_map (phrases : List Phrase) :
    Phrase.partsOf phrases = phrases.map Phrase.part := by
  induction phrases with
  | nil => rfl
  | cons _ _ ih => simp [Phrase.partsOf, Phrase.part, ih]

@[simp] theorem Field.lexemesOf_eq_map (fields : List Field) :
    Field.lexemesOf fields = fields.map Field.lexemes := by
  induction fields with
  | nil => rfl
  | cons _ _ ih => simp [Field.lexemesOf, ih]

@[simp] theorem Binder.lexemesOf_eq_map (binders : List Binder) :
    Binder.lexemesOf binders = binders.map Binder.lexemes := by
  induction binders with
  | nil => rfl
  | cons _ _ ih => simp [Binder.lexemesOf, ih]

@[simp] theorem Branch.lexemesOf_eq_map (branches : List Branch) :
    Branch.lexemesOf branches = branches.map Branch.lexemes := by
  induction branches with
  | nil => rfl
  | cons _ _ ih => simp [Branch.lexemesOf, ih]

/-- The text of a phrase. -/
def Phrase.print (phrase : Phrase) : List Char := Lexeme.print phrase.lexemes

end Weave
