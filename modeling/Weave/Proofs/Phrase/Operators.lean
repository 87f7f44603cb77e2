import Weave.Proofs.Grammar.Pasted
import Weave.Proofs.Phrase.Scanning

namespace Weave

/-!
# Connectives

Operators and defaults join two expressions.  How loosely a connective binds tells the level at
which it goes on with a chain, and it ends everything that binds tighter.
-/

/-- What joins two expressions. -/
inductive Connective where
  | operator (sign : Operator)
  | orElse

namespace Connective

variable {token : Token}

/-- How loosely a connective binds. -/
def rank : Connective → Nat
  | .operator .times | .operator .divide => 0
  | .operator .plus | .operator .concat | .operator .diff => 1
  | .operator _ => 2
  | .orElse => 3

theorem rank_lt (connective : Connective) : connective.rank < 4 := by
  cases connective with
  | operator sign => cases sign <;> decide
  | orElse => decide

/-- How a connective is written. -/
def lexeme : Connective → Lexeme
  | .operator sign => .operator sign
  | .orElse => .keyword .defaultWord

/-- The expression of two joined expressions. -/
def build : Connective → Expr → Expr → Expr
  | .operator sign => .binary sign.function
  | .orElse => .orElse

theorem endsUpTo (connective : Connective) (isKind : token.kind = connective.lexeme.kind) :
    token.EndsUpTo connective.rank := by
  intro lower isLower
  have isTight : lower = 0 ∨ lower = 1 ∨ lower = 2 ∨ lower = 3 := by
    have := connective.rank_lt
    omega
  cases connective with
  | operator sign =>
    rcases isTight with rfl | rfl | rfl | rfl <;> cases sign <;>
      simp_all [Level.Ends, Token.endsOperand, Token.endsPlain, operatorsAt,
        multiplicativeOperators, additiveOperators, rank, lexeme, Lexeme.kind, Operator.kind]
  | orElse =>
    rcases isTight with rfl | rfl | rfl | rfl <;>
      simp [Level.Ends, Token.endsOperand, Token.endsPlain, operatorsAt, multiplicativeOperators,
        additiveOperators, comparisonOperators, isKind, lexeme, Lexeme.kind, Keyword.kind]

theorem combines (connective : Connective) :
    operatorsAt connective.rank connective.lexeme.token = some connective.build := by
  cases connective with
  | operator sign => cases sign <;> rfl
  | orElse => rfl

end Connective

end Weave
