import Weave.Proofs.Phrase
import Weave.Proofs.Token.Moved

namespace Weave

open List

/-!
# Scanning the text of a phrase

The text of a phrase is scanned into exactly its lexemes: a blank follows every lexeme, no
lexeme can be continued by a blank, and none begins with one.
-/

/-- The token of a lexeme, which stands nowhere. -/
def Lexeme.token (lexeme : Lexeme) : Token :=
  ⟨lexeme.kind, String.ofList lexeme.characters, .nowhere⟩

/-- A text without quotes and backslashes ends at the next quote. -/
theorem Token.closeString_plain (plain : ∀ char ∈ body, isPlainCharacter char) :
    closeString '"' (body ++ ['"']) = some (body ++ ['"'], []) := by
  induction body with
  | nil => rfl
  | cons first _ ih =>
    have firstPlain := plain first (by simp)
    have notQuote : first ≠ '"' := by
      rintro rfl
      exact absurd firstPlain (by decide)
    have notBackslash : first ≠ '\\' := by
      rintro rfl
      exact absurd firstPlain (by decide)
    have othersClosed := ih fun char mem => plain char (by simp [mem])
    rw [cons_append, closeString]
    · simp [notQuote, othersClosed]
    · simp [notBackslash]
    · simp [notBackslash]

theorem Name.wordKind_letters (name : Name) : Token.wordKind name.letters = .word := by
  have isFree := name.isFree
  have differs {word : String} (isKeyword : word ∈ keywords) : name.letters ≠ word.toList := by
    intro same
    rw [same, String.ofList_toList] at isFree
    exact isFree isKeyword
  have notDefault := differs (show "default" ∈ keywords by decide)
  have notTrue := differs (show "true" ∈ keywords by decide)
  have notFalse := differs (show "false" ∈ keywords by decide)
  have notNull := differs (show "null" ∈ keywords by decide)
  simp_all [Token.wordKind]

namespace Lexeme

theorem isLexeme (lexeme : Lexeme) : Token.IsLexeme lexeme.kind lexeme.characters [] := by
  cases lexeme with
  | number numeral =>
    obtain ⟨whole, fraction, hasWhole, areDigits⟩ := numeral
    cases fraction with
    | nil =>
      exact .whole hasWhole (by simpa [characters, Numeral.characters] using areDigits)
        (by simp [Token.Stops]) (by simp)
    | cons => exact .fraction hasWhole (by simp) areDigits (by simp [Token.Stops])
  | text literal =>
    exact .string (.inl rfl) (Token.closeString_plain (all_eq_true.mp literal.isPlain))
  | word name =>
    have isWord := Token.IsLexeme.word name.isWord (by simp [Token.Stops] : Token.Stops _ [])
    rwa [name.wordKind_letters] at isWord
  | keyword fixed =>
    have isName : Token.isName fixed.characters := by cases fixed <;> decide
    have isWord := Token.IsLexeme.word isName (by simp [Token.Stops] : Token.Stops _ [])
    have isKind : Token.wordKind fixed.characters = fixed.kind := by cases fixed <;> decide
    rwa [isKind] at isWord
  | operator fixed | sign fixed =>
    cases fixed <;> first | exact .pair rfl | exact .sign rfl (by simp) (by simp)

/-- The text of lexemes is cut into their tokens, wherever it stands. -/
theorem cuts_print (lexemes : List Lexeme) (pos : Position) : ∃ tokens ending,
      Token.Cuts pos (print lexemes) (tokens ++ [ending]) ∧
        tokens.map Token.placeless = lexemes.map token ∧ ending.kind = .finish := by
  induction lexemes generalizing pos with
  | nil => exact ⟨[], _, .finish pos, rfl, rfl⟩
  | cons lexeme others ih =>
    obtain ⟨tokens, ending, cuts, areThose, isEnd⟩ :=
      ih ((pos.advance lexeme.characters).advance [' '])
    have isGap : Token.IsGapPiece [' '] (print others) := .blanks (by simp [Text.isBlank])
    have printed : print (lexeme :: others) = lexeme.characters ++ ([' '] ++ print others) := by
      simp [print]
    rw [printed]
    exact ⟨_ :: tokens, ending,
      .lexeme (lexeme.isLexeme.before (by simp [Token.Halts])) (.gap isGap cuts),
      congrArg (lexeme.token :: ·) areThose, isEnd⟩

end Lexeme

end Weave
