import Weave.Proofs.Expr.Trimmed

namespace Weave.Token

open List

/-!
# Words and the blanks between them

Which words a text has does not depend on the blanks and comments between them.  A text without
comments can be divided at a blank, unless a word goes over it, and texts can be joined with a blank
between them.
-/

/-- The token of a lexeme that stands nowhere. -/
def ofLexeme (kind : Kind) (lexeme : List Char) : Token := ⟨kind, String.ofList lexeme, .nowhere⟩

/-- A text is made of words of which something holds and of blanks, without comments. -/
inductive IsSpaced (holds : List Char → Prop) : List Char → List Token → Prop
  | nil : IsSpaced holds [] []
  | blank (isBlank : Text.isBlank char = true) (behind : IsSpaced holds rest words) :
      IsSpaced holds (char :: rest) words
  | word {kind : Kind} {lexeme : List Char} (isLexeme : IsLexeme kind lexeme rest)
      (isHeld : holds lexeme) (behind : IsSpaced holds rest words) :
      IsSpaced holds (lexeme ++ rest) (ofLexeme kind lexeme :: words)

/-- Texts are made of the words, one text after the other. -/
inductive AreSpaced (holds : List Char → Prop) : List (List Char) → List Token → Prop
  | nil : AreSpaced holds [] []
  | cons (first : IsSpaced holds text words) (others : AreSpaced holds texts more) :
      AreSpaced holds (text :: texts) (words ++ more)

theorem IsLexeme.not_isBlank_head {kind : Kind} (isLexeme : IsLexeme kind (first :: text) rest) :
    Text.isBlank first = false := by
  by_contra isBlank
  have cut := piece_of_isLexeme isLexeme
  rw [cons_append, piece_of_isBlank (by simpa using isBlank)] at cut
  cases cut

namespace IsSpaced

variable {holds : List Char → Prop} {text line rest : List Char} {char : Char}
  {words others : List Token}

theorem scan_eq (spaced : IsSpaced holds text words) : ∃ tokens, scan text = .ok tokens ∧
      tokens.map placeless = words ++ [ofLexeme .finish []] := by
  have cut (pos : Position) : ∃ tokens, Cuts pos text tokens ∧
      tokens.map placeless = words ++ [ofLexeme .finish []] := by
    induction spaced generalizing pos with
    | nil => exact ⟨_, .finish pos, rfl⟩
    | @blank char rest _ isBlank _ ih =>
      obtain ⟨tokens, cuts, same⟩ := ih (pos.advance [char])
      exact ⟨tokens, @Cuts.gap pos [char] rest tokens (.blanks (by simpa using isBlank)) cuts, same⟩
    | word isLexeme _ _ ih =>
      obtain ⟨tokens, cuts, same⟩ := ih (pos.advance _)
      exact ⟨_, .lexeme isLexeme cuts, by rw [map_cons, same]; rfl⟩
  obtain ⟨tokens, cuts, same⟩ := cut .start
  exact ⟨tokens, scanAt_eq_ok_iff.mpr cuts, same⟩

theorem append (first : IsSpaced holds text words) (second : IsSpaced holds rest others) :
    IsSpaced holds (text ++ ' ' :: rest) (words ++ others) := by
  induction first with
  | nil => exact .blank (by decide) second
  | blank isBlank _ ih => exact .blank isBlank ih
  | @word behind _ _ _ isLexeme isHeld _ ih =>
    rw [← append_nil behind] at isLexeme
    rw [append_assoc]
    exact .word (isLexeme.replace (by simp [Halts])) isHeld ih

/-- Texts with a blank between every two of them have their words one after the other. -/
theorem joined (areSpaced : AreSpaced holds texts words) :
    IsSpaced holds (intercalate [' '] texts) words := by
  induction areSpaced with
  | nil => exact .nil
  | cons first others ih =>
    cases others with
    | nil => simpa using first
    | cons => simpa using first.append ih

/-- A character stands in a word, or it is a blank at which the text is divided. -/
theorem divide (spaced : IsSpaced holds (line ++ char :: rest) words) :
    (∃ kind front back behind, IsLexeme kind (front ++ char :: back) behind ∧
        holds (front ++ char :: back) ∧ front <:+ line ∧ back <+: rest) ∨
      Text.isBlank char ∧ ∃ first second,
        words = first ++ second ∧ IsSpaced holds line first ∧ IsSpaced holds rest second := by
  generalize isWhole : line ++ char :: rest = whole at spaced
  induction spaced generalizing line with
  | nil => simp at isWhole
  | @blank _ _ words isBlank spaced ih =>
    cases line with
    | nil =>
      cases isWhole
      exact .inr ⟨isBlank, [], words, rfl, .nil, spaced⟩
    | cons =>
      obtain ⟨rfl, isRest⟩ := cons.inj isWhole
      refine (ih isRest).imp ?_ ?_
      · rintro ⟨kind, front, back, others, isLexeme, isHeld, isFront, isBack⟩
        exact ⟨kind, front, back, others, isLexeme, isHeld, isFront.trans (suffix_cons ..), isBack⟩
      · rintro ⟨isBlankHere, before, after, isSplit, spacedLine, spacedRest⟩
        exact ⟨isBlankHere, before, after, isSplit, .blank isBlank spacedLine, spacedRest⟩
  | @word behind _ kind lexeme isLexeme isHeld _ ih =>
    have parts : (∃ back, lexeme = line ++ char :: back ∧ rest = back ++ behind) ∨
        ∃ more, line = lexeme ++ more ∧ more ++ char :: rest = behind := by
      rcases append_eq_append_iff.mp isWhole
        with ⟨_ | ⟨_, back⟩, isFront, isBack⟩ | ⟨more, isFront, isBack⟩
      · exact .inr ⟨[], by simpa using isFront.symm, isBack⟩
      · cases isBack
        exact .inl ⟨back, isFront, rfl⟩
      · exact .inr ⟨more, isFront, isBack.symm⟩
    obtain ⟨back, rfl, rfl⟩ | ⟨more, rfl, rfl⟩ := parts
    · exact .inl ⟨kind, line, back, behind, isLexeme, isHeld, suffix_rfl, prefix_append ..⟩
    · refine (ih rfl).imp ?_ ?_
      · rintro ⟨kind, front, back, others, isLexeme, isHeld, isFront, isBack⟩
        exact ⟨kind, front, back, others, isLexeme, isHeld, isFront.trans (suffix_append ..),
          isBack⟩
      · rintro ⟨isBlankHere, before, after, rfl, spacedLine, spacedRest⟩
        have atEnd : IsLexeme kind lexeme (more ++ []) := isLexeme.replace (by simp [Halts])
        rw [append_nil] at atEnd
        exact ⟨isBlankHere, _ :: before, after, rfl, .word atEnd isHeld spacedLine, spacedRest⟩

theorem eq_nil (spaced : IsSpaced holds [] words) : words = [] := by
  generalize isNil : [] = text at spaced
  cases spaced with
  | nil => rfl
  | blank => cases isNil
  | word isLexeme => exact absurd (append_eq_nil_iff.mp isNil.symm).1 isLexeme.ne_nil

theorem trim (spaced : IsSpaced holds text words) : IsSpaced holds (Text.trim text) words := by
  refine @Text.of_trim text (IsSpaced holds · words) (fun blank text isBlank spaced => ?_)
    (fun text blank isBlank spaced => ?_) spaced
  · obtain ⟨_, _, _, _, isLexeme, _, isFront, _⟩ | ⟨_, first, second, rfl, nothing, spaced⟩ :=
      @divide _ [] _ _ _ spaced
    · cases suffix_nil.mp isFront
      simp [isLexeme.not_isBlank_head] at isBlank
    · rwa [nothing.eq_nil, nil_append]
  · obtain ⟨_, _, _, _, isLexeme, _, _, isBack⟩ | ⟨_, first, second, rfl, spaced, nothing⟩ :=
      spaced.divide
    · cases prefix_nil.mp isBack
      simp [isLexeme.not_isBlank] at isBlank
    · rwa [nothing.eq_nil, append_nil]

/-- Words that go over no line end are those of the lines. -/
theorem lines (spaced : IsSpaced Text.IsLine text words) :
    AreSpaced Text.IsLine (Text.lines text) words := by
  have divide {char : Char} {line rest : List Char} {words : List Token}
      (isEnd : Text.isLineEnd char)
      (spaced : IsSpaced Text.IsLine (line ++ char :: rest) words) : ∃ first second,
        words = first ++ second ∧ IsSpaced Text.IsLine line first ∧
          IsSpaced Text.IsLine rest second := by
    obtain ⟨_, _, _, _, _, isLine, _⟩ | ⟨_, divided⟩ := spaced.divide
    · simp [isLine char (by simp)] at isEnd
    · exact divided
  have within (passed text : List Char) (words : List Token)
      (spaced : IsSpaced Text.IsLine (passed.reverse ++ text) words) :
      AreSpaced Text.IsLine (Text.linesFrom passed text) words := by
    fun_induction Text.linesFrom passed text generalizing words with
    | case1 =>
      rw [spaced.eq_nil]
      exact .nil
    | case2 => simpa using AreSpaced.cons spaced .nil
    | case3 _ _ ih =>
      obtain ⟨first, _, rfl, isLine, spaced⟩ := divide (by decide) spaced
      obtain ⟨_, second, rfl, nothing, spaced⟩ := @divide _ [] _ _ (by decide) spaced
      rw [nothing.eq_nil]
      exact .cons isLine (ih second spaced)
    | case4 _ _ _ _ isEnd ih =>
      obtain ⟨first, second, rfl, isLine, spaced⟩ := divide isEnd spaced
      exact .cons isLine (ih second spaced)
    | case5 _ _ _ _ _ ih => exact ih words (by simpa using spaced)
  exact within [] text words spaced

end IsSpaced

/-! ## Words with one blank between them -/

/-- What tokens are written as, with a blank between every two of them. -/
def respaced (tokens : List Token) : List Char :=
  intercalate [' '] ((tokens.filter (·.kind != .finish)).map spelling)

theorem Cuts.areSpaced (cuts : Cuts pos text tokens) : ∃ words : List Token,
      tokens.map placeless = words ++ [ofLexeme .finish []] ∧
        AreSpaced (fun _ => True) ((tokens.filter (·.kind != .finish)).map spelling) words := by
  induction cuts with
  | finish => exact ⟨[], rfl, .nil⟩
  | gap _ _ ih => exact ih
  | @lexeme pos kind lexeme _ _ isLexeme _ ih =>
    obtain ⟨words, same, areSpaced⟩ := ih
    have spells := (isLexeme.isScanned pos).1
    have isWord : (kind != .finish) := by
      cases kind <;> first | rfl | cases spells
    have spaced : IsSpaced (fun _ => True) (lexeme ++ []) [ofLexeme kind lexeme] :=
      .word (isLexeme.before (by simp [Halts])) trivial .nil
    rw [append_nil] at spaced
    refine ⟨ofLexeme kind lexeme :: words, by rw [map_cons, same]; rfl, ?_⟩
    simpa [isWord, spelling_of_spells spells] using AreSpaced.cons spaced areSpaced

/-- The words of a source, written with one blank between every two of them, are scanned into the
same tokens again, but for their positions. -/
theorem scan_respaced {source : List Char} {tokens : List Token}
    (scanned : scan source = .ok tokens) :
    ∃ others, scan (respaced tokens) = .ok others ∧
      others.map placeless = tokens.map placeless := by
  obtain ⟨words, same, areSpaced⟩ := (cuts_of_scan scanned).areSpaced
  obtain ⟨others, scannedAgain, sameWords⟩ := (IsSpaced.joined areSpaced).scan_eq
  exact ⟨others, scannedAgain, sameWords.trans same.symm⟩

/-- A comment between two words is one blank then, and a point that ends a number stands alone. -/
theorem scan_respaced_comment :
    ∃ others, scan "1 . a b".toList = .ok others ∧ others.map placeless =
      [ofLexeme .number ['1'], ofLexeme .dot ['.'], ofLexeme .word ['a'], ofLexeme .word ['b'],
        ofLexeme .finish []] :=
  scan_respaced (show scan "1.a/**/b".toList = .ok [⟨.number, "1", ⟨1, 1⟩⟩, ⟨.dot, ".", ⟨1, 2⟩⟩,
    ⟨.word, "a", ⟨1, 3⟩⟩, ⟨.word, "b", ⟨1, 8⟩⟩, ⟨.finish, "", ⟨1, 9⟩⟩] by cbv)

end Weave.Token
