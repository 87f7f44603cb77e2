import Weave.Text.Blank
import Weave.Text.Digit

open List

namespace Weave.Text

/-!
# Facts about decimal digits

A decimal digit is either an ASCII digit or one of the ten characters that start at the
zero of another script.  No digit is a blank, and every digit has a value below ten.
-/

/-- A digit lies at most nine characters behind the zero of its script. -/
theorem digit?_eq_some {char : Char} (found : digit? char = some value) :
    (48 ≤ char.toNat ∧ char.toNat ≤ 57 ∧ value = char.toNat - 48) ∨
      ∃ first ∈ foreignZeros,
        128 ≤ char.toNat ∧ first ≤ char.toNat ∧
          char.toNat < first + 10 ∧ value = char.toNat - first := by
  simp only [digit?] at found
  split at found
  · split at found
    · rename_i inRange
      simp only [Bool.and_eq_true, decide_eq_true_eq] at inRange
      exact Or.inl ⟨inRange.1, inRange.2, by simpa using found.symm⟩
    · cases found
  · obtain ⟨first, firstFound, valueShape⟩ := Option.map_eq_some_iff.mp found
    have inRange := find?_some firstFound
    simp only [Bool.and_eq_true, decide_eq_true_eq] at inRange
    exact Or.inr
      ⟨first, mem_of_find?_eq_some firstFound, by omega, inRange.1, inRange.2, valueShape.symm⟩

theorem digit?_lt_ten (found : digit? char = some value) : value < 10 := by
  rcases digit?_eq_some found with ⟨_, _, _⟩ | ⟨first, _, _, _, _, _⟩ <;> omega

/-- No blank lies among the digits of a script beyond ASCII. -/
theorem not_isBlank_foreignDigits : foreignZeros.all (fun first =>
        (range 10).all fun offset => !isBlank (Char.ofNat (first + offset))) := by
  decide +kernel

theorem isBlank_of_isDigit (digit : isDigit char) : isBlank char = false := by
  obtain ⟨value, found⟩ := Option.isSome_iff_exists.mp digit
  rcases digit?_eq_some found with
    ⟨above, below, _⟩ | ⟨first, mem, _, above, below, _⟩
  · simp only [isBlank, Bool.or_eq_false_iff, Bool.and_eq_false_iff, decide_eq_false_iff_not,
      beq_eq_false_iff_ne]
    omega
  · have notBlank :=
      all_eq_true.mp (all_eq_true.mp not_isBlank_foreignDigits first mem)
        (char.toNat - first) (mem_range.mpr (by omega))
    have restored : first + (char.toNat - first) = char.toNat := by omega
    rw [restored] at notBlank
    simpa using notBlank

end Weave.Text
