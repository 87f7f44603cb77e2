import Mathlib.Data.List.Basic
import Weave.Json.Quoted
import Weave.Json.Reader

namespace Weave.Json

open List

/-!
# Quoted strings are read back

Whatever a character is written as inside quotes, reading gives the character again:
itself, a one-letter escape, one code, or the two halves of a pair.
-/

theorem hexDigit?_hexDigit : ∀ value < 16, Text.hexDigit? (Text.hexDigit value) = some value := by
  decide

/-- Four hexadecimal digits hold any code below the second plane. -/
theorem hex_four (small : code < 0x10000) : ∃ a b c d,
      Text.hex 4 code = [a, b, c, d] ∧ fourDigits? a b c d = some code := by
  refine ⟨_, _, _, _, rfl, ?_⟩
  have first := hexDigit?_hexDigit (code / 16 / 16 / 16 % 16) (by omega)
  have second := hexDigit?_hexDigit (code / 16 / 16 % 16) (by omega)
  have third := hexDigit?_hexDigit (code / 16 % 16) (by omega)
  have fourth := hexDigit?_hexDigit (code % 16) (by omega)
  simp only [fourDigits?, first, second, third, fourth, Option.bind_eq_bind, Option.bind_some,
    Option.pure_def, Option.some.injEq]
  omega

theorem scalar_toNat (char : Char) : Text.Escape.scalar char.toNat = char := by
  have isValid : char.toNat.isValidChar := char.valid
  simp [Text.Escape.scalar, isValid, Char.ofNat_toNat]

theorem not_isFirstHalf_toNat (char : Char) : isFirstHalf char.toNat = false := by
  have isValid : char.toNat.isValidChar := char.valid
  simp only [isFirstHalf, Bool.and_eq_false_iff, decide_eq_false_iff_not]
  omega

variable {rest others left : List Char}

/-- A code that is no half of a pair is read as its character. -/
theorem stringFrom_codeEscape (char : Char) (small : char.toNat < 0x10000)
    (goesOn : stringFrom none rest = .ok (others, left)) :
    stringFrom none (codeEscape char.toNat ++ rest) = .ok (char :: others, left) := by
  obtain ⟨a, b, c, d, shape, value⟩ := hex_four small
  have notFirst := not_isFirstHalf_toNat char
  simp only [codeEscape, shape, cons_append, nil_append]
  rw [stringFrom]
  simp only [value, notFirst, goesOn, scalar_toNat]
  rfl

/-- Two halves are read as the character they were made from. -/
theorem stringFrom_codePair (char : Char) (large : 0x10000 ≤ char.toNat)
    (goesOn : stringFrom none rest = .ok (others, left)) :
    stringFrom none (codeEscapes char ++ rest) = .ok (char :: others, left) := by
  have bound : char.toNat < 0x110000 := by
    have isValid : char.toNat.isValidChar := char.valid
    omega
  obtain ⟨code, _⟩ : ∃ code, char.toNat = 0x10000 + code :=
    ⟨char.toNat - 0x10000, by omega⟩
  have escapes :
      codeEscapes char =
        codeEscape (0xD800 + code / 0x400) ++ codeEscape (0xDC00 + code % 0x400) := by
    have notSmall : ¬ char.toNat < 0x10000 := by omega
    have restShape : char.toNat - 0x10000 = code := by omega
    simp only [codeEscapes, if_neg notSmall, restShape]
  obtain ⟨a, b, c, d, firstShape, firstValue⟩ :=
    hex_four (show 0xD800 + code / 0x400 < 0x10000 by omega)
  obtain ⟨e, f, g, h, secondShape, secondValue⟩ :=
    hex_four (show 0xDC00 + code % 0x400 < 0x10000 by omega)
  have isFirst : isFirstHalf (0xD800 + code / 0x400) := by
    simp only [isFirstHalf, Bool.and_eq_true, decide_eq_true_eq]
    omega
  have isSecond : isSecondHalf (0xDC00 + code % 0x400) := by
    simp only [isSecondHalf, Bool.and_eq_true, decide_eq_true_eq]
    omega
  have pair :
      pairCharacter (0xD800 + code / 0x400) (0xDC00 + code % 0x400) = char := by
    have joined :
        0x10000 + (0xD800 + code / 0x400 - 0xD800) * 0x400 + (0xDC00 + code % 0x400 - 0xDC00) =
          char.toNat := by
      omega
    rw [pairCharacter, joined, scalar_toNat]
  simp only [escapes, codeEscape, firstShape, secondShape, cons_append, nil_append]
  rw [stringFrom]
  simp only [firstValue, isFirst]
  rw [stringFrom]
  simp only [secondValue, isSecond, goesOn, pair]
  rfl

theorem stringFrom_shortEscape (found : shortEscape? char = some escape)
    (goesOn : stringFrom none rest = .ok (others, left)) :
    stringFrom none (escape ++ rest) = .ok (char :: others, left) := by
  unfold shortEscape? at found
  split at found
  all_goals cases found
  all_goals
    simp only [cons_append, nil_append]
    rw [stringFrom]
    · simp only [goesOn]
      rfl
    · simp

/-- A character that needs no escape is read as it stands. -/
theorem stringFrom_plain {char : Char} (noEscape : shortEscape? char = none)
    (noControl : ¬ char.toNat < 32) (goesOn : stringFrom none rest = .ok (others, left)) :
    stringFrom none (char :: rest) = .ok (char :: others, left) := by
  have notQuote : char ≠ '"' := by
    rintro rfl
    cases noEscape
  have notBackslash : char ≠ '\\' := by
    rintro rfl
    cases noEscape
  rw [stringFrom]
  · simp only [noControl, notBackslash, decide_false, Bool.or_self, Bool.false_eq_true, if_false,
      goesOn]
    rfl
  · exact notQuote
  · simp [notBackslash]
  · simp [notBackslash]

/-- A character inside quotes is read back. -/
theorem stringFrom_escaped (asciiOnly : Bool) (char : Char)
    (goesOn : stringFrom none rest = .ok (others, left)) :
    stringFrom none (escaped asciiOnly char ++ rest) = .ok (char :: others, left) := by
  unfold escaped
  cases found : shortEscape? char with
  | some => exact stringFrom_shortEscape found goesOn
  | none =>
    simp only
    split
    · by_cases small : char.toNat < 0x10000
      · have single : codeEscapes char = codeEscape char.toNat := by
          simp only [codeEscapes, if_pos small]
        rw [single]
        exact stringFrom_codeEscape char small goesOn
      · exact stringFrom_codePair char (by omega) goesOn
    · rename_i noCode
      have noControl : ¬ char.toNat < 32 := by
        intro control
        simp [control] at noCode
      exact stringFrom_plain found noControl goesOn

/-- The characters between quotes are read back, whatever follows the closing quote. -/
theorem stringFrom_flatMap_escaped (asciiOnly : Bool) (chars : List Char) (rest : List Char) :
    stringFrom none (chars.flatMap (escaped asciiOnly) ++ '"' :: rest) = .ok (chars, rest) := by
  induction chars with
  | nil => rfl
  | cons char _ ih =>
    rw [flatMap_cons, append_assoc]
    exact stringFrom_escaped asciiOnly char ih

end Weave.Json
