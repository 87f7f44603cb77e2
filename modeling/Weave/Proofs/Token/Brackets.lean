import Mathlib.Data.List.Infix
import Weave.Token

open List

namespace Weave

/-!
# Brackets

Where a reading may stop depends on the brackets that are open.  `Settles` says that tokens
close a given number of brackets and every bracket they open themselves.
-/

/-- Whether a kind opens a bracket. -/
def Token.Kind.opens : Token.Kind → Bool
  | .openParen | .openBracket | .openBrace => true
  | _ => false

/-- Whether a kind closes a bracket. -/
def Token.Kind.closes : Token.Kind → Bool
  | .closeParen | .closeBracket | .closeBrace => true
  | _ => false

/-- Whether a kind is the end of the source or of what stands in brackets. -/
def Token.Kind.ends : Token.Kind → Bool
  | .closeParen | .closeBracket | .closeBrace | .finish => true
  | _ => false

/-- Whether a kind neither changes how many brackets are open nor ends the source. -/
def Token.Kind.isPlain (kind : Token.Kind) : Bool := !kind.opens && !kind.ends

namespace Token.Kind

attribute [local simp] opens closes ends isPlain

variable {kind : Token.Kind}

theorem ends_cases (isEnd : kind.ends) :
    kind = .closeParen ∨ kind = .closeBracket ∨ kind = .closeBrace ∨ kind = .finish := by
  cases kind <;> simp at isEnd ⊢

theorem opens_of_closes (isClose : kind.closes) : kind.opens = false := by
  cases kind <;> simp at isClose ⊢

theorem ends_of_closes (isClose : kind.closes) : kind.ends := by
  cases kind <;> simp at isClose ⊢

theorem of_isPlain (plain : kind.isPlain) :
    kind.opens = false ∧ kind.closes = false ∧ kind ≠ .finish := by
  cases kind <;> simp at plain ⊢

/-- Every kind but the end of the source opens a bracket, closes one or does neither. -/
theorem opens_or_closes_or_isPlain (notFinish : kind ≠ .finish) :
    kind.opens ∨ kind.closes ∨ kind.isPlain := by
  cases kind <;> simp at notFinish ⊢

end Token.Kind

/-- Tokens that close a number of brackets and all they open, without the end of the source. -/
def Settles : Nat → List Token → Prop
  | depth, [] => depth = 0
  | depth, token :: rest =>
    if token.kind.opens then Settles (depth + 1) rest
    else if token.kind.closes then 0 < depth ∧ Settles (depth - 1) rest
    else token.kind ≠ .finish ∧ Settles depth rest

namespace Settles

variable {depth : Nat} {token : Token} {tokens rest : List Token}

@[simp] theorem nil_iff : Settles depth [] ↔ depth = 0 := Iff.rfl

theorem cons_of_opens (opens : token.kind.opens) :
    Settles depth (token :: rest) ↔ Settles (depth + 1) rest := by
  simp [Settles, opens]

theorem cons_of_closes (closes : token.kind.closes) :
    Settles (depth + 1) (token :: rest) ↔ Settles depth rest := by
  simp [Settles, Token.Kind.opens_of_closes closes, closes]

theorem cons_of_plain (plain : token.kind.isPlain) :
    Settles depth (token :: rest) ↔ Settles depth rest := by
  simp [Settles, Token.Kind.of_isPlain plain]

theorem not_cons_of_ends (ends : token.kind.ends) : ¬ Settles 0 (token :: rest) := by
  revert ends
  simp only [Settles]
  cases token.kind <;> simp [Token.Kind.ends, Token.Kind.opens, Token.Kind.closes]

theorem not_finish (settles : Settles depth (token :: rest)) : token.kind ≠ .finish := by
  intro isFinish
  simp [Settles, isFinish, Token.Kind.opens, Token.Kind.closes] at settles

/-- A token in front opens a bracket, closes one or does neither. -/
theorem cons_cases (settles : Settles depth (token :: rest)) :
    token.kind.opens ∨ token.kind.closes ∨ token.kind.isPlain :=
  Token.Kind.opens_or_closes_or_isPlain settles.not_finish

theorem pos_of_closes (settles : Settles depth (token :: rest))
    (closes : token.kind.closes) :
    0 < depth := by
  rcases Nat.eq_zero_or_pos depth with rfl | positive
  · exact (not_cons_of_ends (Token.Kind.ends_of_closes closes) settles).elim
  · exact positive

/-- Behind the first of settling tokens, the others settle what is then open. -/
theorem tail (settles : Settles depth (token :: rest)) : ∃ left, Settles left rest := by
  rcases settles.cons_cases with opens | closes | plain
  · exact ⟨depth + 1, (cons_of_opens opens).mp settles⟩
  · obtain ⟨left, rfl⟩ : ∃ left, depth = left + 1 :=
      ⟨depth - 1, by have := settles.pos_of_closes closes; omega⟩
    exact ⟨left, (cons_of_closes closes).mp settles⟩
  · exact ⟨depth, (cons_of_plain plain).mp settles⟩

/-- The rest of settling tokens settles what is open where it starts. -/
theorem suffix (settles : Settles depth tokens) (isSuffix : rest <:+ tokens) :
    ∃ left, Settles left rest := by
  induction tokens generalizing depth with
  | nil =>
    rw [suffix_nil.mp isSuffix]
    exact ⟨0, rfl⟩
  | cons _ _ ih =>
    rcases suffix_cons_iff.mp isSuffix with rfl | inOthers
    · exact ⟨depth, settles⟩
    · obtain ⟨left, othersSettle⟩ := settles.tail
      exact ih othersSettle inOthers

theorem noEnds (settles : Settles depth tokens) : ∀ token ∈ tokens, token.kind ≠ .finish := by
  intro token mem
  obtain ⟨front, rest, rfl⟩ := append_of_mem mem
  obtain ⟨_, restSettles⟩ := settles.suffix (suffix_append front (token :: rest))
  exact restSettles.not_finish

/-- Tokens settle one number of brackets only. -/
theorem unique (settles : Settles depth tokens) (otherSettles : Settles other tokens) :
    depth = other := by
  induction tokens generalizing depth other with
  | nil => rw [nil_iff.mp settles, nil_iff.mp otherSettles]
  | cons _ _ ih =>
    rcases settles.cons_cases with opens | closes | plain
    · have deeper := ih ((cons_of_opens opens).mp settles) ((cons_of_opens opens).mp otherSettles)
      omega
    · have positive := settles.pos_of_closes closes
      have otherPositive := otherSettles.pos_of_closes closes
      rcases depth with _ | left
      · omega
      rcases other with _ | otherLeft
      · omega
      rw [ih ((cons_of_closes closes).mp settles) ((cons_of_closes closes).mp otherSettles)]
    · exact ih ((cons_of_plain plain).mp settles) ((cons_of_plain plain).mp otherSettles)

/-- Behind settling tokens, the others settle what is then open. -/
theorem append_iff (settles : Settles depth tokens) :
    Settles (depth + other) (tokens ++ rest) ↔ Settles other rest := by
  induction tokens generalizing depth with
  | nil => rw [nil_iff.mp settles, Nat.zero_add, nil_append]
  | cons _ _ ih =>
    rw [cons_append]
    rcases settles.cons_cases with opens | closes | plain
    · rw [cons_of_opens opens, ← ih ((cons_of_opens opens).mp settles), Nat.add_right_comm]
    · have positive := settles.pos_of_closes closes
      rcases depth with _ | left
      · omega
      rw [Nat.add_right_comm, cons_of_closes closes, ih ((cons_of_closes closes).mp settles)]
    · rw [cons_of_plain plain, ih ((cons_of_plain plain).mp settles)]

theorem append (settles : Settles depth tokens) (restSettles : Settles other rest) :
    Settles (depth + other) (tokens ++ rest) :=
  settles.append_iff.mpr restSettles

theorem append_iff_of_zero (settles : Settles 0 tokens) :
    Settles depth (tokens ++ rest) ↔ Settles depth rest := by
  have isSame : Settles (0 + depth) (tokens ++ rest) ↔ Settles depth rest := settles.append_iff
  rwa [Nat.zero_add] at isSame

theorem append_iff_of_one (settles : Settles 1 tokens) :
    Settles (depth + 1) (tokens ++ rest) ↔ Settles depth rest := by
  have isSame : Settles (1 + depth) (tokens ++ rest) ↔ Settles depth rest := settles.append_iff
  rwa [Nat.add_comm] at isSame

end Settles

/--
What stands in brackets and the bracket that closes it can be cut nowhere but at their end
so that the rest is settled.
-/
theorem suffix_eq_nil_of_settles {inner : List Token} {close : Token}
    (innerSettles : Settles 0 inner) (closes : close.kind.closes)
    (isSuffix : rest <:+ inner ++ [close]) (settles : Settles 0 rest) :
    rest = [] := by
  rcases suffix_concat_iff.mp isSuffix with isNil | ⟨front, rfl, frontSuffix⟩
  · exact isNil
  · obtain ⟨left, frontSettles⟩ := innerSettles.suffix frontSuffix
    have closed : Settles 1 [close] := (Settles.cons_of_closes closes).mpr rfl
    have wholeSettles := frontSettles.append closed
    exact absurd (settles.unique wholeSettles) (by omega)

end Weave
