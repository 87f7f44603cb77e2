import Weave.Proofs.Phrase.RoundTrip

namespace Weave

open List

/-!
# Formulas with as few parentheses as possible

A formula joins numbers, names and texts by operators of four ranks: products, sums, comparisons and
defaults, each of which binds looser than the one before it and groups to the left.  A part of a
formula is written in parentheses only if it binds looser than its place asks for: on the left of an
operator as tight as the operator itself, on the right tighter.  Every formula is read back from its
text.
-/

variable {formula left right : Formula}

/-! ## Formulas -/

/-- The smallest parts of a formula. -/
inductive Atom where
  | number (numeral : Numeral)
  | text (literal : PlainText)
  | name (word : Name)

/-- An atom as a phrase. -/
def Atom.phrase : Atom → Phrase
  | .number numeral => .number numeral
  | .text literal => .text literal
  | .name word => .name word

/-- Atoms joined by connectives. -/
inductive Formula where
  | atom (leaf : Atom)
  | join (connective : Connective) (left right : Formula)

namespace Formula

/-- The place that asks for no tighter binding than the formula has. -/
def looseness : Formula → Nat
  | .atom _ => 0
  | .join connective _ _ => connective.rank + 1

/-- The expression of a formula, which stands nowhere. -/
def toExpr : Formula → Expr
  | .atom leaf => leaf.phrase.toExpr
  | .join connective left right => connective.build left.toExpr right.toExpr

/-- The lexemes of a formula. -/
def lexemes : Formula → List Lexeme
  | .atom leaf => leaf.phrase.lexemes
  | .join connective left right =>
    Lexeme.enclosed (left.looseness ≤ connective.rank + 1) left.lexemes ++
      connective.lexeme :: Lexeme.enclosed (right.looseness ≤ connective.rank) right.lexemes

/-- The text of a formula. -/
def print (formula : Formula) : List Char := Lexeme.print formula.lexemes

end Formula

/-! ## Reading formulas -/

theorem Atom.isLeaf_phrase (leaf : Atom) : leaf.phrase.isLeaf := by
  cases leaf <;> rfl

namespace Formula

/-- Lexemes are derived as an expression at every rank from one on, in front of whatever ends the
chains of the lower ranks. -/
def DerivedFrom (loosest : Nat) (expected : Expr) (lexemes : List Lexeme) : Prop :=
  ∀ parse rank next, loosest ≤ rank → (∀ lower < rank, (Level.layer lower).Ends next) →
    Derives parse none (.expr (.layer rank)) (lexemes.map Lexeme.token) expected next

/-- The lexemes of a formula are derived at every rank that it does not bind looser than. -/
structure Readable (formula : Formula) : Prop where
  notIf : (ahead (formula.lexemes.map Lexeme.token)).isWord "if" = false
  isLong : formula.looseness ≠ 0 → 1 < formula.lexemes.length
  derived : DerivedFrom formula.looseness formula.toExpr formula.lexemes

theorem looseness_le (formula : Formula) : formula.looseness ≤ 4 := by
  cases formula with
  | atom => simp [looseness]
  | join connective => exact connective.rank_lt

theorem Readable.whole (readable : formula.Readable) (parse : TextParser)
    (next : Token) (isStop : next.isStop) :
    Derives parse none (.expr .whole) (formula.lexemes.map Lexeme.token) formula.toExpr next :=
  have ends := Token.endsUpTo_of_isStop isStop 4
  .expression readable.notIf
    (readable.derived parse 4 next formula.looseness_le fun lower isLess => ends lower isLess.le)
    (ends 4 (Nat.le_refl 4))

theorem readable_atom (leaf : Atom) : (atom leaf).Readable := by
  have isPart := Phrase.part_of_leaf leaf.isLeaf_phrase
  refine ⟨?_, (absurd rfl ·), fun parse rank next _ ends => .layer (.start (.inr rfl) ?_) ends⟩
  · rw [lexemes, ← isPart]
    exact leaf.phrase.isWord_ahead_part (by decide)
  · rw [lexemes, ← isPart]
    exact leaf.phrase.readable.part parse next

/-- A part of a formula is derived at the rank that its place asks for, in parentheses if need
be. -/
theorem derived_part (readable : formula.Readable) (loosest : Nat) :
    let part := Lexeme.enclosed (formula.looseness ≤ loosest) formula.lexemes
    (ahead (part.map Lexeme.token)).isWord "if" = false ∧
      DerivedFrom loosest formula.toExpr part := by
  intro part
  unfold part Lexeme.enclosed
  split
  case isTrue fits =>
    exact ⟨readable.notIf, fun parse rank next isLoose =>
      readable.derived parse rank next (Nat.le_trans (of_decide_eq_true fits) isLoose)⟩
  case isFalse tooLoose =>
    refine ⟨rfl, fun parse rank next _ ends => .layer (.start (.inr rfl) ?_) ends⟩
    rw [map_cons, map_append]
    refine .enclosed rfl rfl (readable.whole parse _ rfl) fun _ word isOne => ?_
    have isLong := readable.isLong
      (by have := of_decide_eq_false (Bool.eq_false_of_not_eq_true tooLoose); omega)
    have isShort := congrArg length isOne
    simp only [length_map, length_singleton] at isShort
    omega

theorem readable_join (connective : Connective) (leftReadable : left.Readable)
    (rightReadable : right.Readable) : (join connective left right).Readable := by
  obtain ⟨notIf, derivesLeft⟩ := derived_part leftReadable (connective.rank + 1)
  obtain ⟨_, derivesRight⟩ := derived_part rightReadable connective.rank
  have isLeft (parse : TextParser) :=
    derivesLeft parse _ connective.lexeme.token (Nat.le_refl _) fun lower isLess =>
      connective.endsUpTo rfl lower (Nat.le_of_lt_succ isLess)
  refine ⟨?_, fun _ => ?_, fun parse rank next isLoose ends => ?_⟩
  · rw [lexemes, map_append, ahead_append (isLeft Expr.parse).ne_nil]
    exact notIf
  · have := length_pos_of_ne_nil (isLeft Expr.parse).ne_nil
    simp only [lexemes, length_map, length_append, length_cons] at this ⊢
    omega
  · have isRight := derivesRight parse connective.rank next (Nat.le_refl _) fun lower isLess =>
      ends lower (Nat.lt_of_lt_of_le isLess (Nat.le_of_succ_le isLoose))
    rw [lexemes, map_append]
    exact (Derives.join (isLeft parse) connective.combines isRight (ends _ isLoose)).layer_of_le
      isLoose ends

theorem readable (formula : Formula) : formula.Readable := by
  induction formula with
  | atom leaf => exact readable_atom leaf
  | join connective _ _ isLeft isRight => exact readable_join connective isLeft isRight

/-- Every formula is read back from its text, up to positions. -/
theorem parse_minimal_print (formula : Formula) :
    ∃ expr, Expr.parse formula.print = .ok expr ∧ expr.placeless = formula.toExpr :=
  Lexeme.parse_text formula.readable.whole

end Formula

end Weave
