import Mathlib.Data.List.Basic
import Mathlib.Data.List.TakeWhile
import Weave.Proofs.Phrase
import Weave.Proofs.Text.Digit

namespace Weave

open List Decimal Char

/-!
# Reading numerals

A numeral without sign and exponent is read as the float nearest to it, whatever script its
digits belong to.
-/

variable {digits text : List Char} {first char : Char}

namespace Decimal

/-- What reading makes of one character of a numeral. -/
def plainCharacter (character : Char) : Char :=
  if character.toNat < 127 then character
  else if Text.isBlank character then ' '
  else
    match Text.digit? character with
    | some value => Char.ofNat (48 + value)
    | none => character

theorem plainNumeral_eq_map (text : List Char) : plainNumeral text = text.map plainCharacter := rfl

/-- A digit of any script becomes the ASCII digit with its value. -/
theorem plainCharacter_of_digit (found : Text.digit? char = some value) :
    plainCharacter char = ofNat (48 + value) := by
  have notBlank : Text.isBlank char = false :=
    Text.isBlank_of_isDigit (by simp [Text.isDigit, found])
  rcases Text.digit?_eq_some found with
    ⟨above, below, rfl⟩ | ⟨first, _, beyond, _, _, _⟩
  · have small : char.toNat < 127 := by omega
    have restored : 48 + (char.toNat - 48) = char.toNat := by omega
    simp [plainCharacter, small, restored, ofNat_toNat]
  · have large : ¬ char.toNat < 127 := by omega
    simp [plainCharacter, large, notBlank, found]

theorem asciiDigit_of_lt : ∀ value < 10, (ofNat (48 + value)).isDigit ∧
        (ofNat (48 + value)).toNat = 48 + value := by
  decide

theorem isDigit_of_mem_plainNumeral (written : ∀ digit ∈ digits, Text.isDigit digit)
    (mem : char ∈ plainNumeral digits) :
    char.isDigit := by
  rw [plainNumeral_eq_map] at mem
  obtain ⟨digit, digitMember, rfl⟩ := mem_map.mp mem
  obtain ⟨_, found⟩ := Option.isSome_iff_exists.mp (written digit digitMember)
  rw [plainCharacter_of_digit found]
  exact (asciiDigit_of_lt _ (Text.digit?_lt_ten found)).1

/-- The value of digits does not depend on their script. -/
theorem digitsValue_plainNumeral (written : ∀ digit ∈ digits, Text.isDigit digit) :
    digitsValue (plainNumeral digits) =
      digits.foldl (fun value digit => value * 10 + (Text.digit? digit).getD 0) 0 := by
  rw [plainNumeral_eq_map, digitsValue, foldl_map]
  apply foldl_ext
  intro value digit mem
  obtain ⟨_, foundShape⟩ := Option.isSome_iff_exists.mp (written digit mem)
  have place := (asciiDigit_of_lt _ (Text.digit?_lt_ten foundShape)).2
  rw [plainCharacter_of_digit foundShape, place, foundShape]
  simp

/-- A text without blanks loses nothing when it is trimmed. -/
theorem trimNumeral_eq (solid : ∀ char ∈ plainNumeral text, isNumeralBlank char = false) :
    trimNumeral text = plainNumeral text := by
  have front :
      (plainNumeral text).dropWhile isNumeralBlank = plainNumeral text := by
    cases shape : plainNumeral text with
    | nil => rfl
    | cons first =>
      have notBlank := solid first (by simp [shape])
      simp [notBlank]
  have back :
      (plainNumeral text).reverse.dropWhile isNumeralBlank = (plainNumeral text).reverse := by
    cases shape : (plainNumeral text).reverse with
    | nil => rfl
    | cons last =>
      have mem : last ∈ plainNumeral text := mem_reverse.mp (by simp [shape])
      simp [solid last mem]
  rw [trimNumeral, front, Text.dropEndWhile, back, reverse_reverse]

theorem withoutUnderscores_eq_some (free : '_' ∉ text) (afterDigit : Bool) :
    withoutUnderscores afterDigit text = some text := by
  induction text generalizing afterDigit with
  | nil => rfl
  | cons first _ ih =>
    simp only [mem_cons, not_or] at free
    have firstNe : first ≠ '_' := fun same => free.1 same.symm
    rw [withoutUnderscores]
    · simp [ih free.2]
    · exact firstNe

/-- Every ASCII digit is one of the ten behind its zero. -/
theorem exists_of_isDigit (digit : char.isDigit) :
    ∃ value < 10, char = ofNat (48 + value) := by
  simp only [isDigit, Bool.and_eq_true, decide_eq_true_eq] at digit
  have above : 48 ≤ char.toNat := by simpa using UInt32.le_iff_toNat_le.mp digit.1
  have below : char.toNat ≤ 57 := by simpa using UInt32.le_iff_toNat_le.mp digit.2
  refine ⟨char.toNat - 48, by omega, ?_⟩
  have restored : 48 + (char.toNat - 48) = char.toNat := by omega
  rw [restored, ofNat_toNat]

theorem solid_of_isDigit_or_point (allowed : char.isDigit ∨ char = '.') :
    isNumeralBlank char = false ∧ char ≠ '_' := by
  rcases allowed with digit | rfl
  · obtain ⟨value, _, rfl⟩ := exists_of_isDigit digit
    revert value
    decide
  · decide

theorem splitSign_of_isDigit (digit : first.isDigit) (rest : List Char) :
    splitSign (first :: rest) = (false, first :: rest) := by
  have signs : ∀ value < 10, ofNat (48 + value) ≠ '-' ∧ ofNat (48 + value) ≠ '+' := by
    decide
  obtain ⟨value, small, rfl⟩ := exists_of_isDigit digit
  rw [splitSign]
  · simp [signs value small]
  · simp [signs value small]

theorem unboundedWord?_of_isDigit (digit : first.isDigit) (rest : List Char) :
    unboundedWord? ((first :: rest).map toLower) = none := by
  have letters :
      ∀ value < 10,
        (ofNat (48 + value)).toLower ≠ 'i' ∧ (ofNat (48 + value)).toLower ≠ 'n' := by
    decide
  obtain ⟨value, small, rfl⟩ := exists_of_isDigit digit
  simp [unboundedWord?, letters value small]

/-- Digits, and digits behind a point, are read as the float nearest to them. -/
theorem readFloat?_eq_some {fraction : List Char} (shape : plainNumeral text = whole ++ point)
    (pointShape : (point = [] ∧ fraction = []) ∨ point = '.' :: fraction) (hasWhole : whole ≠ [])
    (wholeDigits : ∀ digit ∈ whole, digit.isDigit)
    (fractionDigits : ∀ digit ∈ fraction, digit.isDigit) :
    readFloat? text =
      some (ofDecimal false (digitsValue (whole ++ fraction)) (-fraction.length)) := by
  have allowed :
      ∀ char ∈ whole ++ point, char.isDigit ∨ char = '.' := by
    intro char mem
    rcases mem_append.mp mem with inWhole | inPoint
    · exact Or.inl (wholeDigits char inWhole)
    · rcases pointShape with ⟨rfl, _⟩ | rfl
      · cases inPoint
      · rcases mem_cons.mp inPoint with isPoint | inFraction
        · exact Or.inr isPoint
        · exact Or.inl (fractionDigits char inFraction)
  have trimmed : trimNumeral text = whole ++ point := by
    rw [trimNumeral_eq, shape]
    intro char mem
    rw [shape] at mem
    exact (solid_of_isDigit_or_point (allowed char mem)).1
  have free : '_' ∉ whole ++ point := by
    intro mem
    exact (solid_of_isDigit_or_point (allowed '_' mem)).2 rfl
  obtain ⟨first, rest, rfl⟩ := exists_cons_of_ne_nil hasWhole
  have firstDigit := wholeDigits first (by simp)
  have digitsTaken :
      ((first :: rest) ++ point).takeWhile isDigit = first :: rest := by
    rw [takeWhile_append_of_pos wholeDigits]
    rcases pointShape with ⟨rfl, _⟩ | rfl <;> simp
  have digitsDropped :
      ((first :: rest) ++ point).dropWhile isDigit = point := by
    rw [dropWhile_append_of_pos wholeDigits]
    rcases pointShape with ⟨rfl, _⟩ | rfl <;> simp
  rw [readFloat?, trimmed, withoutUnderscores_eq_some free]
  simp only [cons_append, splitSign_of_isDigit firstDigit, unboundedWord?_of_isDigit firstDigit]
  rw [← cons_append, decimal?, digitsTaken, digitsDropped]
  rcases pointShape with ⟨rfl, rfl⟩ | rfl
  · simp [exponent?]
  · have fractionTaken : fraction.takeWhile isDigit = fraction := by
      rw [takeWhile_eq_self_iff]
      exact fractionDigits
    have fractionDropped : fraction.dropWhile isDigit = [] := by
      rw [dropWhile_eq_nil_iff]
      exact fractionDigits
    simp [fractionTaken, fractionDropped, exponent?]

end Decimal

theorem Numeral.readFloat?_characters (numeral : Numeral) :
    readFloat? numeral.characters = some numeral.value := by
  obtain ⟨whole, fraction, hasWhole, written⟩ := numeral
  obtain ⟨wholeWritten, fractionWritten⟩ := forall_mem_append.mp written
  have joined :
      plainNumeral whole ++ plainNumeral fraction =
        plainNumeral (whole ++ fraction) := by
    simp [plainNumeral]
  have length : (plainNumeral fraction).length = fraction.length := by
    simp [plainNumeral]
  have hasPlain : plainNumeral whole ≠ [] := by
    simpa [plainNumeral] using hasWhole
  rw [Numeral.value, Numeral.digits, ← digitsValue_plainNumeral written, ← joined, ← length]
  have pointed :
      plainNumeral (Numeral.characters ⟨whole, fraction, hasWhole, written⟩) =
        plainNumeral whole ++
          plainNumeral (if fraction.isEmpty then [] else '.' :: fraction) := by
    unfold Numeral.characters
    split <;> simp_all [plainNumeral]
  apply readFloat?_eq_some pointed
  · cases fraction with
    | nil => exact Or.inl ⟨rfl, rfl⟩
    | cons => exact Or.inr rfl
  · exact hasPlain
  · exact fun digit mem => isDigit_of_mem_plainNumeral wholeWritten mem
  · exact fun digit mem => isDigit_of_mem_plainNumeral fractionWritten mem

end Weave
