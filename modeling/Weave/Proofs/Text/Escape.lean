import Weave.Text.Escape

namespace Weave.Text

open List

/-!
# Escapes add nothing to the ASCII characters

A literal can stand for more characters than it is written with, since a character beyond ASCII
stands for one character per byte.  None of these is an ASCII character, and an escape stands for at
most as many of them as it is written with.  So the number of ASCII characters is what a literal
never gains.
-/

variable {text : List Char} {char : Char} {pending : Pending}

/-- Whether a character is an ASCII character. -/
def isAscii (character : Char) : Bool := character.toNat < 128

/-- The number of ASCII characters of a text. -/
def asciiCount (text : List Char) : Nat := text.countP isAscii

theorem asciiCount_cons (char : Char) (text : List Char) :
    asciiCount (char :: text) = asciiCount [char] + asciiCount text := by
  simp [asciiCount, countP_cons, Nat.add_comm]

@[simp] theorem asciiCount_append (text more : List Char) :
    asciiCount (text ++ more) = asciiCount text + asciiCount more :=
  countP_append

theorem asciiCount_le_length (text : List Char) : asciiCount text ≤ text.length := countP_le_length

theorem asciiCount_le_one (char : Char) : asciiCount [char] ≤ 1 := asciiCount_le_length [char]

theorem asciiCount_le_of_sublist (isSublist : text.Sublist more) :
    asciiCount text ≤ asciiCount more :=
  isSublist.countP_le

namespace Escape

/-- A character beyond ASCII has no byte that is an ASCII character. -/
theorem le_of_mem_utf8EncodeChar {byte : UInt8} (isByte : byte ∈ String.utf8EncodeChar char)
    (beyond : ¬ char.toNat < 128) :
    128 ≤ byte.toNat := by
  have isLarge : ¬ char.val.toNat ≤ 127 := by
    change ¬ char.val.toNat < 128 at beyond
    omega
  simp only [String.utf8EncodeChar, isLarge, if_false] at isByte
  split at isByte
  · simp only [mem_cons, not_mem_nil, or_false] at isByte
    rcases isByte with rfl | rfl <;> simp <;> omega
  · split at isByte
    · simp only [mem_cons, not_mem_nil, or_false] at isByte
      rcases isByte with rfl | rfl | rfl <;> simp <;> omega
    · simp only [mem_cons, not_mem_nil, or_false] at isByte
      rcases isByte with rfl | rfl | rfl | rfl <;> simp <;> omega

theorem le_toNat_of_mem_bytes {found : Char} (isFound :
      found ∈ (String.utf8EncodeChar char).map fun byte => Char.ofNat byte.toNat)
    (beyond : ¬ char.toNat < 128) :
    128 ≤ found.toNat := by
  obtain ⟨byte, isByte, rfl⟩ := mem_map.mp isFound
  have isValid : byte.toNat.isValidChar := .inl (Nat.lt_trans byte.toNat_lt (by decide))
  rw [Char.ofNat, dif_pos isValid]
  exact le_of_mem_utf8EncodeChar isByte beyond

theorem utf8EncodeChar_ascii (isAscii : char.toNat < 128) :
    String.utf8EncodeChar char = [UInt8.ofNat char.val.toNat] := by
  have isLow : char.val.toNat ≤ 127 := Nat.le_of_lt_succ isAscii
  simp only [String.utf8EncodeChar, isLow, if_true]

theorem byteCharacters_append (front back : List Char) :
    byteCharacters (front ++ back) = byteCharacters front ++ byteCharacters back := by
  simp [byteCharacters]

theorem byteCharacters_cons (char : Char) (text : List Char) :
    byteCharacters (char :: text) = byteCharacters [char] ++ byteCharacters text :=
  byteCharacters_append [char] text

theorem byteCharacters_ascii (isAscii : char.toNat < 128) : byteCharacters [char] = [char] := by
  have isByte : (UInt8.ofNat char.val.toNat).toNat = char.toNat := by
    exact Nat.mod_eq_of_lt (Nat.lt_trans isAscii (by decide))
  rw [byteCharacters, flatMap_singleton, utf8EncodeChar_ascii isAscii, map_singleton, isByte,
    Char.ofNat_toNat]

theorem asciiCount_bytes_le (char : Char) :
    asciiCount ((String.utf8EncodeChar char).map fun byte => Char.ofNat byte.toNat) ≤
      asciiCount [char] := by
  by_cases isSmall : char.toNat < 128
  · have counted : asciiCount [char] = 1 := by simp [asciiCount, isAscii, isSmall]
    rw [utf8EncodeChar_ascii isSmall, counted]
    exact asciiCount_le_one _
  · refine Nat.le_trans (Nat.le_of_eq (countP_eq_zero.mpr ?_)) (Nat.zero_le _)
    intro found isFound
    have isLarge := le_toNat_of_mem_bytes isFound isSmall
    simp [isAscii, isLarge]

theorem asciiCount_byteCharacters_le (text : List Char) :
    asciiCount (byteCharacters text) ≤ asciiCount text := by
  induction text with
  | nil => exact Nat.le_refl 0
  | cons char _ ih =>
    have isLess := asciiCount_bytes_le char
    rw [asciiCount_cons]
    simp only [byteCharacters, flatMap_cons, asciiCount_append] at ih ⊢
    omega

/-- What an escape has been written with and may still stand for. -/
def Pending.credit : Pending → Nat
  | .nothing => 0
  | .backslash | .octal .. | .hexadecimal .. => 1

theorem asciiCount_plain (char : Char) :
    asciiCount (plain char).1 + (plain char).2.credit ≤ asciiCount [char] := by
  unfold plain
  split
  · subst char
    decide
  · simp [Pending.credit]

/-- A character adds no more ASCII characters than it pays for. -/
theorem asciiCount_step {next : Pending} (reads : step pending char = some (added, next)) :
    asciiCount added + next.credit ≤ pending.credit + asciiCount [char] := by
  have onlyOne := asciiCount_le_one
  cases pending with
  | nothing =>
    have isPlain := Option.some.inj reads
    simpa [Pending.credit, isPlain] using asciiCount_plain char
  | backslash =>
    simp only [step] at reads
    split at reads
    · cases reads
      exact Nat.le_trans (onlyOne _) (Nat.le_add_right 1 _)
    · split at reads
      · cases reads
        exact Nat.le_add_right 1 _
      · split at reads
        · cases reads
          exact Nat.le_add_right 1 _
        · split at reads
          · cases reads
            exact Nat.zero_le _
          · split at reads
            · cases reads
            · cases reads
              rw [asciiCount_cons]
              exact Nat.add_le_add_right (onlyOne _) _
  | octal value =>
    simp only [step] at reads
    split at reads
    · split at reads
      · cases reads
        exact Nat.le_add_right 1 _
      · cases reads
        exact Nat.le_trans (onlyOne _) (Nat.le_add_right 1 _)
    · cases reads
      have isPaid := asciiCount_plain char
      have isOne := onlyOne (scalar value)
      rw [asciiCount_cons]
      simp only [Pending.credit] at isPaid ⊢
      omega
  | hexadecimal =>
    simp only [step] at reads
    split at reads
    · cases reads
    · split at reads
      · cases reads
        exact Nat.le_add_right 1 _
      · split at reads
        · cases reads
          exact Nat.le_trans (onlyOne _) (Nat.le_add_right 1 _)
        · cases reads

theorem asciiCount_resolve (reads : resolve pending text = some result) :
    asciiCount result ≤ pending.credit + asciiCount text := by
  induction text generalizing pending result with
  | nil =>
    cases pending with
    | nothing =>
      obtain rfl := Option.some.inj reads
      exact Nat.le_refl 0
    | octal =>
      obtain rfl := Option.some.inj reads
      exact asciiCount_le_one _
    | backslash => cases reads
    | hexadecimal => cases reads
  | cons _ _ ih =>
    simp only [resolve] at reads
    split at reads
    · cases reads
    · rename_i added next stepReads
      obtain ⟨rest, restReads, rfl⟩ := Option.map_eq_some_iff.mp reads
      have isPaid := asciiCount_step stepReads
      have restPaid := ih restReads
      rw [asciiCount_append, asciiCount_cons]
      omega

/-- A literal has at least the ASCII characters of what it stands for. -/
theorem asciiCount_unquote {quoted value : String} (reads : unquote quoted = some value) :
    asciiCount value.toList ≤ asciiCount quoted.toList := by
  obtain ⟨content, contentReads, rfl⟩ := Option.map_eq_some_iff.mp reads
  calc asciiCount (String.ofList content).toList
      = asciiCount content := by rw [String.toList_ofList]
    _ ≤ 0 + asciiCount (byteCharacters (inner quoted.toList)) := asciiCount_resolve contentReads
    _ = asciiCount (byteCharacters (inner quoted.toList)) := Nat.zero_add _
    _ ≤ asciiCount (inner quoted.toList) := asciiCount_byteCharacters_le _
    _ ≤ asciiCount quoted.toList :=
        asciiCount_le_of_sublist ((dropLast_sublist _).trans (tail_sublist _))

end Escape

end Weave.Text
