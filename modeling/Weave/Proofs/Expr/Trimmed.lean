import Weave.Proofs.Expr.Pasted
import Weave.Proofs.Text.Lines

namespace Weave

open List

/-!
# Blanks around an expression

No lexeme ends with a blank, so a source without the blanks at its ends has the same words and is
read as the same expression, but for the positions.
-/

namespace Token

variable {kind : Kind} {lexeme text rest body : List Char} {tokens : List Token} {blank : Char}
  {pos : Position}

theorem getLast?_of_closeString (closed : closeString quote text = some (body, rest)) :
    body.getLast? = some quote := by
  fun_induction closeString quote text generalizing body with
  | case1 | case2 | case3 => cases closed
  | case4 | case6 =>
    rename_i ih
    simp only [Option.map_eq_some_iff, Prod.exists] at closed
    obtain ⟨_, _, innerClosed, rfl, rfl⟩ := closed
    simp [getLast?_cons, ih innerClosed]
  | case5 =>
    cases closed
    rfl

/-- A lexeme ends with a digit, a character of a word, a quote or a sign. -/
theorem IsLexeme.ends {holds : Char → Bool} (isLexeme : IsLexeme kind (text ++ [blank]) rest)
    (digits : ∀ char, Text.isDigit char → holds char)
    (parts : ∀ char, isWordPart char → holds char)
    (signs : "\"'-.+=>$/<{}[]():,*@".toList.all holds) :
    holds blank := by
  generalize isWhole : text ++ [blank] = lexeme at isLexeme
  have isLast : blank ∈ lexeme.getLast? := by simp [← isWhole]
  have mem := mem_of_mem_getLast? isLast
  rw [all_eq_true] at signs
  cases isLexeme with
  | whole _ areDigits => exact digits blank (areDigits blank mem)
  | fraction _ notEmpty areDigits =>
    rw [getLast?_append, getLast?_cons, getLast?_eq_some_getLast notEmpty] at isLast
    cases isLast
    exact digits _ (areDigits _ (mem_append_right _ (getLast_mem notEmpty)))
  | string isQuote closes =>
    rw [getLast?_cons, getLast?_of_closeString closes] at isLast
    cases isLast
    rcases isQuote with rfl | rfl <;> exact signs _ (by decide)
  | word isWord => exact parts blank (isWordPart_of_isName isWord blank mem)
  | pair isPair =>
    unfold pairKind? at isPair
    split at isPair <;> cases isPair <;> cases isLast <;> exact signs _ (by decide)
  | sign isSign =>
    cases isLast
    unfold signKind? at isSign
    split at isSign <;> cases isSign <;> exact signs _ (by decide)

theorem IsLexeme.not_isBlank (isLexeme : IsLexeme kind (text ++ [blank]) rest) :
    Text.isBlank blank = false := by
  simpa using @IsLexeme.ends _ _ _ _ (!Text.isBlank ·) isLexeme
    (fun _ isDigit => by simp [Text.isBlank_of_isDigit isDigit])
    (fun _ isPart => by simp [not_isBlank_of_isWordPart isPart]) rfl

/-- A source without a blank at its end has the same tokens, but for the end. -/
theorem Cuts.dropLast (cuts : Cuts pos (text ++ [blank]) tokens)
    (isBlank : Text.isBlank blank) :
    ∃ others, Cuts pos text others ∧ others.map placeless = tokens.map placeless := by
  have parts {text front rest : List Char} (isWhole : text ++ [blank] = front ++ rest) :
      rest = [] ∧ front = text ++ [blank] ∨
        ∃ back, rest = back ++ [blank] ∧ text = front ++ back := by
    rcases eq_nil_or_concat rest with rfl | ⟨back, last, rfl⟩
    · exact .inl ⟨rfl, by simpa using isWhole.symm⟩
    · rw [concat_eq_append, ← append_assoc] at isWhole
      obtain ⟨rfl, isLast⟩ := append_inj' isWhole rfl
      exact .inr ⟨back, by rw [concat_eq_append, isLast], rfl⟩
  generalize isWhole : text ++ [blank] = whole at cuts
  induction cuts generalizing text with
  | finish => simp at isWhole
  | @gap pos skipped _ tokens isGap others ih =>
    obtain ⟨rfl, rfl⟩ | ⟨back, rfl, rfl⟩ := parts isWhole
    · cases scanAt_eq_ok_iff.mpr others
      have shorter : IsGapPiece text [] := by
        generalize isSkipped : text ++ [blank] = skipped at isGap
        cases isGap with
        | blanks areBlank =>
          exact .blanks fun char mem => areBlank char (by simp [← isSkipped, mem])
        | @lineComment body =>
          obtain ⟨_, isMark⟩ | ⟨back, rfl, rfl⟩ := @parts _ ['/', '/'] body isSkipped
          · cases (append_inj' (show ['/'] ++ ['/'] = text ++ [blank] from isMark) rfl).2
            cases isBlank
          · exact .lineComment (by simp_all) (by simp)
        | @blockComment body =>
          have isMark := isSkipped.trans (append_assoc ('/' :: '*' :: body) ['*'] ['/']).symm
          cases (append_inj' isMark rfl).2
          cases isBlank
      have cuts := Cuts.gap shorter (.finish (pos.advance text))
      rw [append_nil] at cuts
      exact ⟨_, cuts, rfl⟩
    · obtain ⟨tokens, cuts, same⟩ := ih rfl
      refine ⟨tokens, .gap ?_ cuts, same⟩
      cases isGap with
      | blanks areBlank => exact .blanks areBlank
      | blockComment closesFirst => exact .blockComment closesFirst
      | lineComment oneLine toLineEnd =>
        refine .lineComment oneLine fun next isNext => toLineEnd next ?_
        rw [head?_append, isNext]
        rfl
  | @lexeme _ kind lexeme _ tokens isLexeme _ ih =>
    obtain ⟨rfl, rfl⟩ | ⟨back, rfl, rfl⟩ := parts isWhole
    · simp [isLexeme.not_isBlank] at isBlank
    · obtain ⟨_, cuts, same⟩ := ih rfl
      have atEnd : IsLexeme kind lexeme (back ++ []) := isLexeme.replace (by simp [Halts])
      rw [append_nil] at atEnd
      exact ⟨_, .lexeme atEnd cuts, by rw [map_cons, same]; rfl⟩

/-- A source without the blanks at its ends has the same words. -/
theorem scan_trim (scanned : scan text = .ok tokens) :
    ∃ others, scan (Text.trim text) = .ok others ∧ others.map placeless = tokens.map placeless := by
  refine @Text.of_trim text (fun text => ∃ others, scan text = .ok others ∧
    others.map placeless = tokens.map placeless) ?_ ?_ ⟨tokens, scanned, rfl⟩
  · rintro blank text isBlank ⟨others, scanned, same⟩
    have isMoved : movedScan _ (scan text) = .ok others :=
      (scanFrom_origin _ text).symm.trans ((scanAt_blank isBlank .start text).symm.trans scanned)
    cases isScanned : scan text with
    | error => simp [isScanned, movedScan] at isMoved
    | ok found =>
      rw [isScanned] at isMoved
      cases isMoved
      exact ⟨found, rfl, by rw [← same, map_map]; rfl⟩
  · rintro _ _ isBlank ⟨_, scanned, same⟩
    obtain ⟨fewer, cuts, alsoSame⟩ := (cuts_of_scan scanned).dropLast isBlank
    exact ⟨fewer, scanAt_eq_ok_iff.mpr cuts, alsoSame.trans same⟩

end Token

/-- A source that can be read can be read without the blanks around it. -/
theorem Expr.parse_trim {expr : Expr} (isRead : parse source = .ok expr) :
    ∃ trimmed, parse (Text.trim source) = .ok trimmed ∧ trimmed.placeless = expr.placeless := by
  obtain ⟨_, _, scanned, isEnd, derives⟩ := parse_eq_ok_iff.mp isRead
  obtain ⟨_, otherScanned, same⟩ := Token.scan_trim scanned
  exact parse_of_words derives isEnd otherScanned same

end Weave
