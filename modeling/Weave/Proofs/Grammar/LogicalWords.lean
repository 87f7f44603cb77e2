import Weave.Proofs.Grammar.InfixChain
import Weave.Proofs.Phrase.Operators

namespace Weave

open List

/-!
# Logical words between comparisons

The words `and` and `or` are infix words like any other, so they bind tighter than every operator:
`a == b and c == d` compares `a` with `b and c`, and the outcome with `d`.  Only parentheses make a
condition of two comparisons.
-/

variable {parse : TextParser} {tokens : List Token} {value : Expr}
  {next ending : Token}

/-! ## Operands without infix words -/

section

variable (parse ending)

/-- A closed expression with selectors, indices and calls behind it. -/
inductive Postfix : List Token → Expr → Prop
  | primary (first : Primary parse ending) : Postfix first.tokens first.value
  | property {tokens : List Token}
      (base : Postfix tokens left) (isDot : dot.kind = .dot)
      (selects : Selects names selector) :
      Postfix (tokens ++ dot :: names) (.property left selector false)
  | safe {tokens : List Token}
      (base : Postfix tokens left) (isDot : dot.kind = .safeDot)
      (isWord : word.kind = .word) :
      Postfix (tokens ++ [dot, word]) (.property left (.key word.lexeme) true)
  | index {tokens inner : List Token}
      (base : Postfix tokens left) (opens : opening.kind = .openBracket)
      (closes : closing.kind = .closeBracket) (settles : Settles 0 inner)
      (isRead : Expr.ofTokens parse (inner ++ [ending]) = .ok place) :
      Postfix (tokens ++ opening :: (inner ++ [closing])) (.index left place)
  | call {tokens inner : List Token} {left : Expr} {arguments : List Expr} {opening closing : Token}
      (base : Postfix tokens left) (opens : opening.kind = .openParen)
      (closes : closing.kind = .closeParen) (settles : Settles 0 inner) (isRead :
        (Grammar.upTo parse (inner.length + 2)).arguments (inner.length + 3)
          (opening :: (inner ++ [closing, ending])) = .ok (arguments, [ending])) :
      Postfix (tokens ++ opening :: (inner ++ [closing])) (.call left arguments)

end

section Derived

variable (isEnd : ending.kind = .finish)

include isEnd

theorem Postfix.notIf (operand : Postfix parse ending tokens value) (rest : List Token) :
    (ahead (tokens ++ rest)).isWord "if" = false := by
  induction operand generalizing rest with
  | primary first => exact first.notIf isEnd rest
  | property _ _ _ ih | safe _ _ _ ih | index _ _ _ _ _ ih | call _ _ _ _ _ ih =>
    rw [append_assoc]
    exact ih _

/-- An operand is derived in front of everything but an arrow. -/
theorem Postfix.derives (operand : Postfix parse ending tokens value)
    (noArrow : next.kind ≠ .arrow) :
    Derives parse none (.expr (.layer 0)) tokens value next := by
  induction operand generalizing next with
  | primary first => exact .start (.inr rfl) (first.derives isEnd next noArrow)
  | property _ isDot selects ih => exact .property (.inr rfl) (ih (by simp [isDot])) isDot selects
  | safe _ isDot isWord ih => exact .safe (.inr rfl) (ih (by simp [isDot])) isDot isWord
  | index _ opens closes settles isRead ih =>
    have inside := Derives.of_ofTokens isEnd settles.noEnds isRead
    exact .index (.inr rfl) (ih (by simp [opens])) opens closes
      (inside.before (by rw [closes]; rfl))
  | @call _ inner _ _ opening closing _ opens _ _ isRead ih =>
    have fits : Fits parse (inner.length + 3) (opening :: (inner ++ [closing, ending])) := by
      simpa using @fits_whole parse (opening :: (inner ++ [closing])) ending isEnd
    obtain ⟨_, _, isWhole, _, inside⟩ :=
      finds_arguments (finds_upTo (inner.length + 2)).1 fits isRead
    obtain ⟨rfl, isInner⟩ := cons.inj isWhole
    obtain rfl := append_cancel_right ((append_assoc inner [closing] [ending]).trans isInner)
    exact .call (.inr rfl) (ih (by simp [opens])) opens (inside.stays next)

end Derived

/-- An operand without infix words. -/
structure PostfixOperand (parse : List Char → Except ParseFault Expr) (ending : Token) where
  tokens : List Token
  value : Expr
  isPostfix : Postfix parse ending tokens value

/-! ## Comparisons -/

/-- A token that compares the expressions around it. -/
structure ComparisonToken where
  token : Token
  sign : Operator
  isComparison : (Connective.operator sign).rank = 2
  writes : token.kind = sign.kind

/-- The call a comparison writes. -/
def ComparisonToken.build (comparison : ComparisonToken) (left right : Expr) : Expr :=
  .binary comparison.sign.function left right

namespace ComparisonToken

variable (cmp : ComparisonToken)

theorem compares : comparisonOperators cmp.token = some cmp.build := by
  obtain ⟨_, sign, isComparison, writes⟩ := cmp
  cases sign <;> simp [Connective.rank] at isComparison <;>
    simp only [comparisonOperators, writes] <;> rfl

theorem endsUpTo : cmp.token.EndsUpTo 2 := by
  have ends := (Connective.operator cmp.sign).endsUpTo cmp.writes
  rwa [cmp.isComparison] at ends

theorem notArrow : cmp.token.kind ≠ .arrow := by
  rw [cmp.writes]
  cases cmp.sign <;> decide

end ComparisonToken

theorem ComparisonToken.derives (cmp : ComparisonToken)
    (base : Derives parse none (.expr (.layer 3)) tokens value cmp.token)
    (item : Derives parse none (.expr (.layer 0)) others right next) (ends : next.EndsUpTo 2) :
    Derives parse none (.expr (.layer 3)) (tokens ++ cmp.token :: others)
      (cmp.build value right) next :=
  .join base cmp.compares (item.layer fun lower isLess => ends lower isLess.le)
    (ends 2 (Nat.le_refl 2))

section Conditions

variable (isEnd : ending.kind = .finish)

include isEnd

namespace PostfixOperand

variable (first second : PostfixOperand parse ending)

/-- An operand is all that binds tighter than the comparison behind it. -/
theorem derives (cmp : ComparisonToken) :
    Derives parse none (.expr (.layer 3)) first.tokens first.value cmp.token :=
  .layer (first.isPostfix.derives isEnd cmp.notArrow) fun lower isLess =>
    cmp.endsUpTo lower (Nat.le_of_lt_succ isLess)

/-- What the comparisons derive in front of an end is a whole expression. -/
theorem whole {token : Token} (ends : token.kind.ends)
    (derives : Derives parse none (.expr (.layer 3)) (first.tokens ++ tokens) value token) :
    Derives parse none (.expr .whole) (first.tokens ++ tokens) value token :=
  have endsUpTo := Token.endsUpTo_of_ends ends 4
  .expression (first.isPostfix.notIf isEnd tokens) (.rise derives (endsUpTo 3 (by decide)))
    (endsUpTo 4 (by decide))

theorem derives_comparison (cmp : ComparisonToken) {token : Token} (ends : token.kind.ends) :
    Derives parse none (.expr .whole) (first.tokens ++ cmp.token :: second.tokens)
      (cmp.build first.value second.value) token :=
  have noArrow : token.kind ≠ .arrow := fun isArrow => by simp [isArrow, Token.Kind.ends] at ends
  first.whole isEnd ends (cmp.derives (first.derives isEnd cmp)
    (second.isPostfix.derives isEnd noArrow) (Token.endsUpTo_of_ends ends 2))

theorem derives_joined (third fourth : PostfixOperand parse ending) (left right : ComparisonToken)
    (word : InfixWord) (notTo : word.token.lexeme ≠ "to") :
    Derives parse none (.expr .whole)
      (first.tokens ++ left.token :: (second.tokens ++ word.token ::
        (third.tokens ++ right.token :: fourth.tokens)))
      (right.build (left.build first.value (word.call second.value third.value)) fourth.value)
      ending := by
  have ends : ending.kind.ends := by rw [isEnd]; rfl
  have isCall : Derives parse none (.expr (.layer 0))
      (second.tokens ++ word.token :: third.tokens) (word.call second.value third.value)
      right.token :=
    .infixCall (second.isPostfix.derives isEnd (by simp [word.isWord])) word.isWord word.notAs
      word.calls (if_neg notTo).symm (third.isPostfix.derives isEnd right.notArrow)
      (right.endsUpTo 0 (by decide))
  have isLeft := left.derives (first.derives isEnd left) isCall right.endsUpTo
  have isBoth := right.derives isLeft (fourth.isPostfix.derives isEnd (by simp [isEnd]))
    (Token.endsUpTo_of_ends ends 2)
  refine first.whole isEnd ends ?_
  simpa using isBoth

theorem derives_compared (cmp : ComparisonToken) {opening closing : Token}
    (opens : opening.kind = .openParen) (closes : closing.kind = .closeParen)
    (noArrow : next.kind ≠ .arrow) :
    Derives parse none (.expr .primary)
      (opening :: (first.tokens ++ cmp.token :: second.tokens ++ [closing]))
      (cmp.build first.value second.value) next :=
  .enclosed opens closes (first.derives_comparison isEnd second cmp (by rw [closes]; rfl))
    fun isArrow => absurd isArrow noArrow

end PostfixOperand

end Conditions

/-- The word `and` or the word `or`. -/
structure LogicalWord where
  token : Token
  isWord : token.kind = .word
  isLogical : token.lexeme = "and" ∨ token.lexeme = "or"

namespace LogicalWord

variable (word : LogicalWord)

/-- Logical words are infix words. -/
def toInfix : InfixWord where
  token := word.token
  isWord := word.isWord
  notAs := by rcases word.isLogical with same | same <;> simp [same]
  calls := by rcases word.isLogical with same | same <;> rw [same] <;> rfl

/-- The call a logical word writes. -/
def call (left right : Expr) : Expr := word.toInfix.call left right

theorem notTo : word.toInfix.token.lexeme ≠ "to" := by
  rcases word.isLogical with same | same <;> simp [toInfix, same]

/-- No logical word is a comparison, wherever they stand. -/
theorem call_ne_build (cmp : ComparisonToken) (left right first second : Expr) :
    (cmp.build left right).placeless ≠ (word.call first second).placeless := by
  intro same
  have sameFun : cmp.sign.function = infixFunction word.token.lexeme := by
    simp only [ComparisonToken.build, call, InfixWord.call, Expr.binary, Expr.builtin,
      Expr.placeless, Expr.call.injEq, Expr.name.injEq] at same
    exact same.1.1
  revert sameFun
  rcases word.isLogical with isWord | isWord <;> rw [isWord] <;>
    cases cmp.sign <;> decide

end LogicalWord

/-- A source of the shape `a == b and c == d` compares `a` with `b and c` and the outcome with `d`;
only a source of the shape `(a == b) and (c == d)` joins two comparisons, and the two are never read
alike. -/
theorem Expr.parse_joined_comparisons (source : List Char) (ending : Token)
    (isEnd : ending.kind = .finish)
    (first second third fourth : PostfixOperand (Expr.parseWithin source.length) ending)
    (left right : ComparisonToken) (word : LogicalWord) : (Token.scan source =
        .ok (first.tokens ++ (left.token :: (second.tokens ++ word.token ::
          (third.tokens ++ right.token :: fourth.tokens)) ++ [ending])) →
      Expr.parse source =
        .ok (right.build (left.build first.value (word.call second.value third.value))
          fourth.value)) ∧
    (∀ opening closing reopening reclosing : Token,
      opening.kind = .openParen →
      closing.kind = .closeParen →
      reopening.kind = .openParen →
      reclosing.kind = .closeParen →
      Token.scan source =
        .ok (opening :: (first.tokens ++ left.token :: second.tokens) ++ closing :: word.token ::
          reopening :: (third.tokens ++ right.token :: fourth.tokens) ++ reclosing :: [ending]) →
      Expr.parse source =
        .ok (word.call (left.build first.value second.value)
          (right.build third.value fourth.value))) ∧
    ∀ compared last condition otherCondition : Expr,
      (right.build compared last).placeless ≠ (word.call condition otherCondition).placeless := by
  refine ⟨fun scanned => ?_, fun opening closing reopening reclosing opens closes reopens recloses
    scanned => ?_, word.call_ne_build right⟩
  · rw [Expr.parse_of_scan scanned, ← append_assoc]
    exact (first.derives_joined isEnd second third fourth left right word.toInfix
      word.notTo).ofTokens isEnd
  · have ends := Token.endsUpTo_of_ends (by rw [isEnd]; rfl : ending.kind.ends = true) 4
    have isFirst := first.derives_compared isEnd second left opens closes
      (by simp [word.isWord] : word.token.kind ≠ .arrow)
    have isSecond := third.derives_compared isEnd fourth right reopens recloses
      (by simp [isEnd] : ending.kind ≠ .arrow)
    have isBoth := word.toInfix.derives (.start (.inr rfl) isFirst) isSecond (ends 0 (by decide))
    rw [Expr.parse_of_scan scanned]
    simpa [LogicalWord.call, LogicalWord.toInfix] using
      (isBoth.whole (by simp [Token.isWord, opens]) ends).ofTokens isEnd

/-- A condition without and with the parentheses that group its comparisons. -/
theorem Expr.parse_joined_equalities : Expr.parse "a == b and c < d".toList =
        .ok (.binary "_binary_lt"
          (.binary "_binary_eq" (.name "a" ⟨1, 1⟩)
            (.binary "_binary_and" (.name "b" ⟨1, 6⟩) (.name "c" ⟨1, 12⟩)))
          (.name "d" ⟨1, 16⟩)) ∧
      Expr.parse "(a == b) and (c < d)".toList =
        .ok (.binary "_binary_and"
          (.binary "_binary_eq" (.name "a" ⟨1, 2⟩) (.name "b" ⟨1, 7⟩))
          (.binary "_binary_lt" (.name "c" ⟨1, 15⟩) (.name "d" ⟨1, 19⟩))) := by
  constructor
  · refine
      (Expr.parse_joined_comparisons "a == b and c < d".toList ⟨.finish, "", ⟨1, 17⟩⟩ rfl
        ⟨[⟨.word, "a", ⟨1, 1⟩⟩], .name "a" ⟨1, 1⟩, .primary ⟨_, _, .token rfl, rfl⟩⟩
        ⟨[⟨.word, "b", ⟨1, 6⟩⟩], .name "b" ⟨1, 6⟩, .primary ⟨_, _, .token rfl, rfl⟩⟩
        ⟨[⟨.word, "c", ⟨1, 12⟩⟩], .name "c" ⟨1, 12⟩, .primary ⟨_, _, .token rfl, rfl⟩⟩
        ⟨[⟨.word, "d", ⟨1, 16⟩⟩], .name "d" ⟨1, 16⟩, .primary ⟨_, _, .token rfl, rfl⟩⟩
        ⟨⟨.equal, "==", ⟨1, 3⟩⟩, .equal, rfl, rfl⟩ ⟨⟨.less, "<", ⟨1, 14⟩⟩, .less, rfl, rfl⟩
        ⟨⟨.word, "and", ⟨1, 8⟩⟩, rfl, .inl rfl⟩).1 ?_
    cbv
  · refine
      (Expr.parse_joined_comparisons "(a == b) and (c < d)".toList ⟨.finish, "", ⟨1, 21⟩⟩ rfl
        ⟨[⟨.word, "a", ⟨1, 2⟩⟩], .name "a" ⟨1, 2⟩, .primary ⟨_, _, .token rfl, rfl⟩⟩
        ⟨[⟨.word, "b", ⟨1, 7⟩⟩], .name "b" ⟨1, 7⟩, .primary ⟨_, _, .token rfl, rfl⟩⟩
        ⟨[⟨.word, "c", ⟨1, 15⟩⟩], .name "c" ⟨1, 15⟩, .primary ⟨_, _, .token rfl, rfl⟩⟩
        ⟨[⟨.word, "d", ⟨1, 19⟩⟩], .name "d" ⟨1, 19⟩, .primary ⟨_, _, .token rfl, rfl⟩⟩
        ⟨⟨.equal, "==", ⟨1, 4⟩⟩, .equal, rfl, rfl⟩ ⟨⟨.less, "<", ⟨1, 17⟩⟩, .less, rfl, rfl⟩
        ⟨⟨.word, "and", ⟨1, 10⟩⟩, rfl, .inl rfl⟩).2.1
        ⟨.openParen, "(", ⟨1, 1⟩⟩ ⟨.closeParen, ")", ⟨1, 8⟩⟩
        ⟨.openParen, "(", ⟨1, 14⟩⟩ ⟨.closeParen, ")", ⟨1, 20⟩⟩ rfl rfl rfl rfl ?_
    cbv

end Weave
