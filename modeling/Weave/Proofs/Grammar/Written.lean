import Weave.Proofs.Grammar.Parts
import Weave.Proofs.Text.Search
import Weave.Proofs.Token.Pasted

namespace Weave

open List

/-!
# What expressions can be written

The names of an expression that was read from a source are words, its placeholders are
`$` and `$$`, and its texts hold no interpolations: those have become templates.
-/

variable {word : String} {expr : Expr}

/-- The name is a word. -/
def isName (name : String) : Prop := Token.isName name.toList = true

/-- The outermost node is one that can be written. -/
def Expr.IsWrittenNode : Expr → Prop
  | .text value => Text.cutAt? interpolationMark value.toList = none
  | .name word _ => isName word
  | .placeholder level _ => level = 1 ∨ level = 2
  | .lambda parameters _ => ∀ parameter ∈ parameters, isName parameter.name
  | .matching _ cases =>
    ∀ case ∈ cases, ∀ pattern, case.pattern = some pattern →
      ∀ name, pattern.binding = some name → isName name
  | _ => True

/-- The expression can be written. -/
def Expr.IsWritten : Expr → Prop := Expr.All Expr.IsWrittenNode

theorem dollar_not_mem (named : isName word) : '$' ∉ word.toList :=
  fun mem => absurd (Token.isWordPart_of_isName named '$' mem) (by decide)

theorem isName_infixFunction (named : isName word) : isName (infixFunction word) := by
  unfold infixFunction
  split
  all_goals try rfl
  exact named

/-! ## Strings -/

section Strings

variable {parse : TextParser}
  (parsed : ∀ source expr, parse source = .ok expr → expr.IsWritten)

include parsed

/-- The texts between interpolations hold none, and the interpolations can be written. -/
theorem isWritten_interpolationParts (isRead : interpolationParts parse fuel content = .ok parts) :
    ∀ part ∈ parts, part.IsWritten := by
  induction fuel generalizing content parts with
  | zero => cases isRead
  | succ _ ih =>
    rw [interpolationParts] at isRead
    cases cut : Text.cutAt? interpolationMark content with
    | none =>
      simp only [cut, Except.ok.injEq] at isRead
      subst isRead
      split
      · simp
      · intro part mem
        obtain rfl := mem_singleton.mp mem
        exact .text (by simpa [Expr.IsWrittenNode] using cut)
    | some found =>
      obtain ⟨_, opened⟩ := found
      obtain ⟨_, notBefore⟩ := Text.cutAt?_eq_some (by simp [interpolationMark]) cut
      simp only [cut] at isRead
      cases closed : closeParens 1 opened with
      | none => simp [closed] at isRead
      | some pair =>
        obtain ⟨inner, _⟩ := pair
        simp only [closed, except_bind_eq_ok] at isRead
        obtain ⟨_, embedding, _, others, isWhole⟩ := isRead
        obtain rfl := Except.ok.inj isWhole
        intro part mem
        rcases mem_append.mp mem with inFront | inRest
        · split at inFront
          · simp at inFront
          · obtain rfl := mem_singleton.mp inFront
            exact .text (by simpa [Expr.IsWrittenNode] using notBefore)
        · rcases mem_cons.mp inRest with rfl | inMore
          · exact parsed inner part embedding
          · exact ih others part inMore

theorem isWritten_stringLiteral (isRead : stringLiteral parse lexeme = .ok expr) :
    expr.IsWritten := by
  rw [stringLiteral] at isRead
  cases unquoted : Text.Escape.unquote lexeme with
  | none => simp [unquoted] at isRead
  | some =>
    simp only [unquoted] at isRead
    split at isRead
    · rw [interpolated, except_bind_eq_ok] at isRead
      obtain ⟨_, partsRead, isWhole⟩ := isRead
      have areWritten := isWritten_interpolationParts parsed partsRead
      split at isWhole
      · cases isWhole
        exact .text rfl
      · cases isWhole
        exact areWritten _ (mem_singleton_self _)
      · cases isWhole
        exact .template trivial areWritten
    · rename_i notContained
      cases isRead
      exact .text (by simpa [Text.contains, Expr.IsWrittenNode] using notContained)

end Strings

/-! ## Sources -/

/-- The tokens of scans. -/
def Token.Stock.scanned : Token.Stock where
  has := Token.IsScanned

theorem Token.Stock.isName_of_hasWord (hasWord : scanned.HasWord word) : Weave.isName word := by
  obtain ⟨_, isScanned, isWord, rfl⟩ := hasWord
  exact isScanned.word isWord

theorem Token.Stock.isName_of_names {pos : Position} (names : scanned.Names word pos) :
    Weave.isName word := by
  cases names with
  | word isScanned isWord => exact isScanned.word isWord
  | sum => rfl
  | infixWord isScanned isWord => exact isName_infixFunction (isScanned.word isWord)
  | sign isFunction =>
    simp only [signFunctions, mem_cons, not_mem_nil, or_false] at isFunction
    rcases isFunction with rfl | rfl | rfl | rfl | rfl | rfl | rfl | rfl | rfl | rfl <;> rfl

theorem Token.Stock.gives_isWrittenNode
    (parsed : ∀ source expr, parse source = .ok expr → expr.IsWritten) :
    scanned.Gives parse Expr.IsWrittenNode where
  unlabelled expr isPlain := by
    cases expr <;> first | exact trivial | cases isPlain
  name _ _ names := isName_of_names names
  placeholder _ isScanned isDollar := isScanned.dollar isDollar
  key _ hasWord := Text.cutAt?_eq_none_of_not_mem (dollar_not_mem (isName_of_hasWord hasWord)) _
  lambda _ _ areWords parameter mem := isName_of_hasWord (areWords parameter mem)
  matching _ _ areWords case mem pattern isPattern name isBound :=
    isName_of_hasWord (areWords case mem pattern isPattern name isBound)
  string _ _ _ _ isRead := isWritten_stringLiteral parsed isRead

namespace Expr

theorem isWritten_of_parseWithin (isRead : parseWithin depth source = .ok expr) :
    expr.IsWritten := by
  induction depth generalizing source expr with
  | zero => cases isRead
  | succ _ ih =>
    -- What stands in an interpolation is read one level below.
    rw [parseWithin, except_bind_eq_ok] at isRead
    obtain ⟨_, scanned, ofTokens⟩ := isRead
    obtain ⟨_, _, rfl, isEnd, noEnds⟩ := (Token.cuts_of_scan scanned).exists_ending
    exact (Token.Stock.gives_isWrittenNode fun _ _ => ih).allAt (.of_ofTokens isEnd noEnds ofTokens)
      fun token mem => (Token.cuts_of_scan scanned).isScanned token (mem_append_left _ mem)

theorem isWritten_of_parse (isRead : parse source = .ok expr) : expr.IsWritten :=
  isWritten_of_parseWithin isRead

end Expr

end Weave
