import Weave.Module.Source
import Weave.Proofs.Token.Spacing

namespace Weave

open List

/-!
# Bodies on one line

A body is put on one line without a change of its words, so it is read as the same expression.  Only
a body that starts with the letters of `do` is taken for a block; nothing is left of it if it is
none.
-/

variable {text : List Char} {words : List Token}

theorem Token.AreSpaced.trimmed (areSpaced : AreSpaced holds texts words) :
    AreSpaced holds ((texts.map Text.trim).filter (!·.isEmpty)) words := by
  induction areSpaced with
  | nil => exact .nil
  | @cons text _ _ _ first _ ih =>
    have trimmed := first.trim
    rw [map_cons, filter_cons]
    split
    · exact .cons trimmed ih
    · rename_i isEmpty
      rw [show Text.trim text = [] by simpa using isEmpty] at trimmed
      rwa [trimmed.eq_nil]

namespace Module

theorem isSpaced_onOneLine (spaced : Token.IsSpaced Text.IsLine text words) :
    Token.IsSpaced Text.IsLine (onOneLine text) words := by
  rw [onOneLine, Text.joinWith_eq_intercalate]
  exact .joined spaced.lines.trimmed

/-- No word ends with a semicolon, so none is dropped at the end of a body. -/
theorem isSpaced_plainBody (spaced : Token.IsSpaced Text.IsLine text words) :
    Token.IsSpaced Text.IsLine (plainBody text) words := by
  rw [plainBody]
  split
  · rename_i isLast
    obtain ⟨front, rfl⟩ := getLast?_eq_some_iff.mp (by simpa using isLast)
    obtain ⟨_, _, _, _, isLexeme, _, _, isBack⟩ | ⟨isBlank, _⟩ := spaced.divide
    · cases prefix_nil.mp isBack
      cases @Token.IsLexeme.ends _ _ _ _ (· != ';') isLexeme
        (fun _ isDigit => bne_iff_ne.mpr (by rintro rfl; cases isDigit))
        (fun _ isPart => bne_iff_ne.mpr (by rintro rfl; cases isPart)) rfl
    · cases isBlank
  · exact isSpaced_onOneLine spaced

/-- A body without comments and without line ends in strings that can be read, and is no block, is
read as the same expression when it is put on one line, unless it starts with the letters of `do`:
then nothing is left of it. -/
theorem simplifyBody_keeps_meaning {body : List Char} {expr : Expr} {words : List Token}
    (isRead : Expr.parse body = .ok expr) (spaced : Token.IsSpaced Text.IsLine body words)
    (noBlock : ∀ rest, Text.trim body = ['d', 'o'] ++ rest → ¬ ['{'] <+: Text.trim rest) :
    if ['d', 'o'] <+: Text.trim body then simplifyBody body = []
    else simplifyBody body ≠ [] ∧ ∃ simplified, Expr.parse (simplifyBody body) = .ok simplified ∧
      simplified.placeless = expr.placeless := by
  split
  · rename_i isDo
    obtain ⟨rest, isBody⟩ := isDo
    have notOpen := noBlock rest isBody.symm
    have isRest : Text.after? "do".toList (Text.trim body) = some rest := by
      rw [← isBody]
      exact Text.after?_append_self ..
    have noInside : blockInside? rest = none := by
      unfold blockInside?
      split
      · rename_i isOpen
        exact absurd (by simp [isOpen]) notOpen
      · rfl
    simp only [simplifyBody, isRest, noInside]
  · rename_i notDo
    have noRest : Text.after? "do".toList (Text.trim body) = none := by
      cases found : Text.after? "do".toList (Text.trim body) with
      | none => rfl
      | some rest => exact absurd ⟨rest, (Text.eq_append_of_after? found).symm⟩ notDo
    have isBody : simplifyBody body = plainBody (Text.trim body) := by
      simp only [simplifyBody, noRest]
    obtain ⟨front, ending, scanned, isEnd, derives⟩ := Expr.parse_eq_ok_iff.mp isRead
    obtain ⟨tokens, scannedAlso, same⟩ := spaced.scan_eq
    cases scanned.symm.trans scannedAlso
    obtain ⟨others, scannedOnce, sameWords⟩ := (isSpaced_plainBody spaced.trim).scan_eq
    obtain ⟨simplified, isParsed, viewed⟩ :=
      Expr.parse_of_words derives isEnd scannedOnce (sameWords.trans same.symm)
    rw [isBody]
    refine ⟨fun isNil => ?_, simplified, isParsed, viewed⟩
    rw [isNil] at isParsed
    cases isParsed

/-- A name that starts with `do` can be read, but nothing is left of it. -/
theorem simplifyBody_keeps_meaning_done :
    Expr.parse "done".toList = .ok (.name "done" ⟨1, 1⟩) ∧ simplifyBody "done".toList = [] := by
  have isRead : Expr.parse "done".toList = .ok (.name "done" ⟨1, 1⟩) := by cbv
  have isLexeme : Token.IsLexeme _ "done".toList [] := .word (by decide) (by simp [Token.Stops])
  have spaced := Token.IsSpaced.word isLexeme (show Text.IsLine _ by decide) .nil
  have nothing := simplifyBody_keeps_meaning isRead spaced (by
    rintro rest isBody
    cases append_cancel_left (show ['d', 'o'] ++ ['n', 'e'] = _ from isBody)
    decide)
  exact ⟨isRead, by rwa [if_pos (by decide)] at nothing⟩

end Module

end Weave
