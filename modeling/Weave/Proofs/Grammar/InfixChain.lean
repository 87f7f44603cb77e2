import Mathlib
import Weave.Proofs.Grammar.Parentheses

namespace Weave

open List

/-!
# Chains of infix words

In `a f (b) g (c)` the second argument of `f` goes as far as an operand does, so it takes
`g (c)` with it: the chain groups to the right.  Only the argument of `to` ends before the
next infix word, so a chain that starts with `to` groups to the left, like one whose first
call stands in parentheses.
-/

/-- Closed tokens that are read as an expression. -/
structure Primary (parse : List Char → Except ParseFault Expr) (ending : Token) where
  tokens : List Token
  value : Expr
  isClosed : Closed tokens
  isRead : Expr.ofTokens parse (tokens ++ [ending]) = .ok value

/-- An expression between parentheses that belong together. -/
structure Parenthesised (parse : List Char → Except ParseFault Expr) (ending : Token) where
  opening : Token
  inner : List Token
  closing : Token
  value : Expr
  opens : opening.kind = .openParen
  closes : closing.kind = .closeParen
  settles : Settles 0 inner
  isRead : Expr.ofTokens parse (inner ++ [ending]) = .ok value

/-- A word that calls a function between its two arguments. -/
structure InfixWord where
  token : Token
  isWord : token.kind = .word
  notAs : token.lexeme ≠ "as"
  calls : endsOperand token.lexeme = false

/-- The call an infix word writes. -/
def InfixWord.call (word : InfixWord) (left right : Expr) : Expr :=
  .binary (infixFunction word.token.lexeme) left right

section Chains

variable {parse : TextParser} {ending : Token} {bound : Nat}

/-- The tokens of an expression in parentheses. -/
def Parenthesised.tokens (argument : Parenthesised parse ending) : List Token :=
  argument.opening :: (argument.inner ++ [argument.closing])

section Derived

variable (isEnd : ending.kind = .finish) (next : Token)

include isEnd

/-- A primary expression is derived in front of everything but an arrow. -/
theorem Primary.derives (first : Primary parse ending) (noArrow : next.kind ≠ .arrow) :
    Derives parse none (.expr .primary) first.tokens first.value next :=
  first.isClosed.derives (.of_ofTokens isEnd first.isClosed.settles.noEnds first.isRead) noArrow

theorem Primary.operand (first : Primary parse ending) (word : InfixWord) :
    Derives parse none (.expr (.layer 0)) first.tokens first.value word.token :=
  .start (.inr rfl) (first.derives isEnd word.token (by simp [word.isWord]))

theorem Primary.notIf (first : Primary parse ending) (rest : List Token) :
    (ahead (first.tokens ++ rest)).isWord "if" = false := by
  have derives := Derives.of_ofTokens isEnd first.isClosed.settles.noEnds first.isRead
  rw [ahead_append derives.ne_nil]
  exact first.isClosed.notIf derives

/-- Parentheses make a primary expression of an expression. -/
theorem Parenthesised.derives (arg : Parenthesised parse ending) (noArrow : next.kind ≠ .arrow) :
    Derives parse none (.expr .primary) arg.tokens arg.value next :=
  .enclosed arg.opens arg.closes
    ((Derives.of_ofTokens isEnd arg.settles.noEnds arg.isRead).before (by rw [arg.closes]; rfl))
    fun isArrow => absurd isArrow noArrow

end Derived

/-- How far the second argument of an infix word goes. -/
def InfixWord.level (word : InfixWord) : Level :=
  if word.token.lexeme = "to" then .plain else .layer 0

theorem InfixWord.isOperand (word : InfixWord) : word.level.IsOperand := by
  unfold level
  split
  · exact .inl rfl
  · exact .inr rfl

theorem InfixWord.derives (word : InfixWord) {next : Token}
    (base : Derives parse none (.expr (.layer 0)) tokens left word.token)
    (arg : Derives parse none (.expr .primary) others right next) (ends : next.endsOperand) :
    Derives parse none (.expr (.layer 0)) (tokens ++ word.token :: others) (word.call left right)
      next := by
  have levelEnds : word.level.Ends next := by
    unfold level
    split
    · exact (Bool.and_eq_true _ _ ▸ ends).1
    · exact ends
  exact .infixCall base word.isWord word.notAs word.calls rfl (.start word.isOperand arg) levelEnds

/-- A chain that starts with `to` groups to the left, and every other chain to the right. -/
theorem Primary.derives_chain (first : Primary parse ending) (isEnd : ending.kind = .finish)
    (word later : InfixWord) (middle last : Parenthesised parse ending) :
    Derives parse none (.expr (.layer 0))
      (first.tokens ++ word.token :: (middle.tokens ++ later.token :: last.tokens))
      (if word.token.lexeme = "to" then
        later.call (word.call first.value middle.value) last.value
      else
        word.call first.value (later.call middle.value last.value)) ending := by
  have endsHere : ending.endsOperand = true := by simp [Token.endsOperand, Token.endsPlain, isEnd]
  have isFirst := first.operand isEnd word
  have isMiddle := middle.derives isEnd later.token (by simp [later.isWord])
  have isLast := last.derives isEnd ending (by simp [isEnd])
  by_cases isTo : word.token.lexeme = "to"
  · -- The argument of `to` leaves the later word to the chain.
    have isCall :
        Derives parse none (.expr (.layer 0)) (first.tokens ++ word.token :: middle.tokens)
        (word.call first.value middle.value) later.token :=
      .infixCall isFirst word.isWord word.notAs word.calls (if_pos isTo).symm
        (.start (.inl rfl) isMiddle) (by simp [Level.Ends, Token.endsPlain, later.isWord])
    simpa [isTo] using later.derives isCall isLast endsHere
  · -- Any other argument is an operand, which takes the later word with it.
    have arg := later.derives (.start (.inr rfl) isMiddle) isLast endsHere
    rw [if_neg isTo]
    exact .infixCall isFirst word.isWord word.notAs word.calls (if_neg isTo).symm arg endsHere

end Chains

theorem Expr.parse_of_scan {source : List Char} (scanned : Token.scan source = .ok tokens) :
    Expr.parse source = Expr.ofTokens (Expr.parseWithin source.length) tokens := by
  simp [Expr.parse, Expr.parseWithin, scanned, bind, Except.bind]

/--
A source of the shape `a f (b) g (c)` is read as `g` called on `f` if `f` is `to`, and otherwise
as `f` called with `g`; a source of the shape `(a f (b)) g (c)` is always read as the former.
-/
theorem Expr.parse_infix_chain (source : List Char) (ending : Token) (isEnd : ending.kind = .finish)
    (first : Primary (Expr.parseWithin source.length) ending) (word later : InfixWord)
    (middle last : Parenthesised (Expr.parseWithin source.length) ending) : (Token.scan source =
        .ok (first.tokens ++
          (word.token :: (middle.tokens ++ later.token :: last.tokens) ++ [ending])) →
      Expr.parse source =
        .ok (if word.token.lexeme = "to" then
            later.call (word.call first.value middle.value) last.value
          else
            word.call first.value (later.call middle.value last.value))) ∧
    ∀ opening closing : Token,
      opening.kind = .openParen →
      closing.kind = .closeParen →
      Token.scan source =
        .ok (opening :: (first.tokens ++ word.token :: middle.tokens) ++
          closing :: (later.token :: last.tokens ++ [ending])) →
      Expr.parse source =
        .ok (later.call (word.call first.value middle.value) last.value) := by
  have endsAt (token : Token) (isEnd : token.kind.ends = true) := Token.endsUpTo_of_ends isEnd 4
  have ends := endsAt ending (by rw [isEnd]; rfl)
  constructor
  · intro scanned
    have derives := first.derives_chain isEnd word later middle last
    rw [Expr.parse_of_scan scanned, ← append_assoc]
    exact (derives.whole (first.notIf isEnd _) ends).ofTokens isEnd
  · intro opening closing opens closes scanned
    have ended := endsAt closing (by rw [closes]; rfl)
    have isCall := word.derives (first.operand isEnd word)
      (middle.derives isEnd closing (by simp [closes])) (ended 0 (Nat.zero_le 4))
    have grouped : Derives _ none (.expr .primary) _ _ later.token :=
      .enclosed opens closes (isCall.whole (first.notIf isEnd _) ended) (by simp [later.isWord])
    have derives := later.derives (.start (.inr rfl) grouped)
      (last.derives isEnd ending (by simp [isEnd])) (ends 0 (Nat.zero_le 4))
    rw [Expr.parse_of_scan scanned]
    simpa using (derives.whole (by simp [Token.isWord, opens]) ends).ofTokens isEnd

/-- A filter and a map, without and with the parentheses that group them. -/
theorem Expr.parse_filter_map_chain : Expr.parse "a filter (b) map (c)".toList =
        .ok (.binary "_infix_filter" (.name "a" ⟨1, 1⟩)
          (.binary "_infix_map" (.name "b" ⟨1, 11⟩) (.name "c" ⟨1, 19⟩))) ∧
      Expr.parse "(a filter (b)) map (c)".toList =
        .ok (.binary "_infix_map"
          (.binary "_infix_filter" (.name "a" ⟨1, 2⟩) (.name "b" ⟨1, 12⟩))
          (.name "c" ⟨1, 21⟩)) := by
  constructor
  · refine
      (Expr.parse_infix_chain "a filter (b) map (c)".toList ⟨.finish, "", ⟨1, 21⟩⟩ rfl
        ⟨[⟨.word, "a", ⟨1, 1⟩⟩], .name "a" ⟨1, 1⟩, .token rfl, rfl⟩
        ⟨⟨.word, "filter", ⟨1, 3⟩⟩, rfl, by decide, rfl⟩
        ⟨⟨.word, "map", ⟨1, 14⟩⟩, rfl, by decide, rfl⟩
        ⟨⟨.openParen, "(", ⟨1, 10⟩⟩, [⟨.word, "b", ⟨1, 11⟩⟩], ⟨.closeParen, ")", ⟨1, 12⟩⟩,
          .name "b" ⟨1, 11⟩, rfl, rfl, (Closed.token rfl).settles, rfl⟩
        ⟨⟨.openParen, "(", ⟨1, 18⟩⟩, [⟨.word, "c", ⟨1, 19⟩⟩], ⟨.closeParen, ")", ⟨1, 20⟩⟩,
          .name "c" ⟨1, 19⟩, rfl, rfl, (Closed.token rfl).settles, rfl⟩).1 ?_
    cbv
  · refine
      (Expr.parse_infix_chain "(a filter (b)) map (c)".toList ⟨.finish, "", ⟨1, 23⟩⟩ rfl
        ⟨[⟨.word, "a", ⟨1, 2⟩⟩], .name "a" ⟨1, 2⟩, .token rfl, rfl⟩
        ⟨⟨.word, "filter", ⟨1, 4⟩⟩, rfl, by decide, rfl⟩
        ⟨⟨.word, "map", ⟨1, 16⟩⟩, rfl, by decide, rfl⟩
        ⟨⟨.openParen, "(", ⟨1, 11⟩⟩, [⟨.word, "b", ⟨1, 12⟩⟩], ⟨.closeParen, ")", ⟨1, 13⟩⟩,
          .name "b" ⟨1, 12⟩, rfl, rfl, (Closed.token rfl).settles, rfl⟩
        ⟨⟨.openParen, "(", ⟨1, 20⟩⟩, [⟨.word, "c", ⟨1, 21⟩⟩], ⟨.closeParen, ")", ⟨1, 22⟩⟩,
          .name "c" ⟨1, 21⟩, rfl, rfl, (Closed.token rfl).settles, rfl⟩).2
        ⟨.openParen, "(", ⟨1, 1⟩⟩ ⟨.closeParen, ")", ⟨1, 14⟩⟩ rfl rfl ?_
    cbv

end Weave
