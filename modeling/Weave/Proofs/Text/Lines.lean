import Mathlib.Data.List.DropRight
import Weave.Proofs.Text.Search
import Weave.Text.Blank

namespace Weave.Text

open List

/-!
# Texts that are put together from lines

A text that starts and ends with characters that are not blank is not changed by trimming; lines
with a line feed behind each of them are the lines of the text; and a text is cut at the needle that
stands where none stands before.
-/

variable {last blank first divider : Char} {blanks back line rest text needle sep : List Char}
  {texts : List (List Char)}

/-! ## Blanks at the ends -/

theorem dropWhile_append_cons (notMatching : matching first = false) (text rest : List Char) :
    (text ++ first :: rest).dropWhile matching = text.dropWhile matching ++ first :: rest := by
  induction text with
  | nil => simp [notMatching]
  | cons char _ ih =>
    by_cases matchesHere : matching char
    · simp [matchesHere, ih]
    · simp [matchesHere]

/-- Only blanks at the ends are trimmed, not those around a character that is not blank. -/
theorem trim_append_cons (notBlank : isBlank first = false) (text rest : List Char) :
    trim (text ++ first :: rest) = trimStart text ++ first :: dropEndWhile isBlank rest := by
  rw [trim]
  simp [dropEndWhile, dropWhile_append_cons notBlank, trimStart]

/-- A text between two characters that are not blank is not changed. -/
theorem trim_eq_self (starts : ∀ first ∈ text.head?, isBlank first = false)
    (ends : ∀ last ∈ text.getLast?, isBlank last = false) :
    trim text = text := by
  rcases eq_nil_or_concat text with rfl | ⟨front, last, rfl⟩
  · rfl
  · rw [concat_eq_append] at starts ends ⊢
    rw [trim_append_cons (ends last (by simp))]
    cases front with
    | nil => rfl
    | cons first => simp [trimStart, dropEndWhile, starts first rfl]

/-- What goes on to hold without a blank at either end holds of the trimmed text. -/
theorem of_trim {holds : List Char → Prop}
    (behind : ∀ blank text, isBlank blank → holds (blank :: text) → holds text)
    (before : ∀ text blank, isBlank blank → holds (text ++ [blank]) → holds text)
    (whole : holds text) :
    holds (trim text) := by
  have started : holds (trimStart text) := by
    induction text with
    | nil => exact whole
    | cons first rest ih =>
      by_cases isFirst : isBlank first
      · simpa [trimStart, isFirst] using ih (behind first rest isFirst whole)
      · simpa [trimStart, isFirst] using whole
  rw [trim]
  generalize trimStart text = text at started
  induction text using reverseRecOn with
  | nil => exact started
  | append_singleton text last ih =>
    by_cases isLast : isBlank last
    · simpa [dropEndWhile, isLast] using ih (before text last isLast started)
    · simpa [dropEndWhile, isLast] using started

theorem trim_cons_of_isBlank (isFirst : isBlank blank) (text : List Char) :
    trim (blank :: text) = trim text := by
  simp [trim, trimStart, isFirst]

theorem trim_append_of_isBlank (isLast : isBlank blank) (text : List Char) :
    trim (text ++ [blank]) = trim text := by
  unfold trim trimStart
  rw [dropWhile_append]
  cases isNil : text.dropWhile isBlank with
  | nil | cons first rest => simp [dropEndWhile, isLast]

theorem not_isBlank_of_getLast?_trim (isLast : last ∈ (trim text).getLast?) :
    isBlank last = false := by
  rw [trim, dropEndWhile, getLast?_reverse] at isLast
  have first := head?_dropWhile_not isBlank (trimStart text).reverse
  rw [Option.mem_def.mp isLast] at first
  exact first

theorem trim_append_of_areBlank (areBlank : ∀ blank ∈ blanks, isBlank blank)
    (text : List Char) :
    trim (text ++ blanks) = trim text := by
  induction blanks using reverseRecOn with
  | nil => rw [append_nil]
  | append_singleton _ last ih =>
    rw [forall_mem_append] at areBlank
    rw [← append_assoc, trim_append_of_isBlank (areBlank.2 last mem_cons_self)]
    exact ih areBlank.1

theorem trim_blanks_append (areBlank : ∀ blank ∈ blanks, isBlank blank) (text : List Char) :
    trim (blanks ++ text) = trim text := by
  induction blanks with
  | nil => rfl
  | cons _ _ ih =>
    rw [forall_mem_cons] at areBlank
    rw [cons_append, trim_cons_of_isBlank areBlank.1]
    exact ih areBlank.2

theorem trim_trimStart (text : List Char) : trim (trimStart text) = trim text := by
  unfold trim trimStart
  rw [dropWhile_idempotent]

theorem trim_dropEndWhile (text : List Char) : trim (dropEndWhile isBlank text) = trim text := by
  have whole : dropEndWhile isBlank text ++ (text.reverse.takeWhile isBlank).reverse = text := by
    rw [dropEndWhile, ← reverse_append, takeWhile_append_dropWhile, reverse_reverse]
  have areBlank : ∀ blank ∈ (text.reverse.takeWhile isBlank).reverse, isBlank blank :=
    fun blank mem => mem_takeWhile_imp (mem_reverse.mp mem)
  conv_rhs => rw [← whole, trim_append_of_areBlank areBlank]

theorem trim_isInfix (text : List Char) : trim text <:+: text := by
  have atEnd : trim text <+: trimStart text := by
    rw [← reverse_suffix, trim, dropEndWhile, reverse_reverse]
    exact dropWhile_suffix isBlank
  exact atEnd.isInfix.trans (dropWhile_suffix isBlank).isInfix

/-! ## Lines -/

/-- No line ends inside the text. -/
def IsLine (text : List Char) : Prop := ∀ character ∈ text, isLineEnd character = false

instance (text : List Char) : Decidable (IsLine text) :=
  decidableBAll (fun character => isLineEnd character = false) text

theorem IsLine.append (frontIsLine : IsLine front) (backIsLine : IsLine back) :
    IsLine (front ++ back) :=
  forall_mem_append.mpr ⟨frontIsLine, backIsLine⟩

theorem linesFrom_cons_of_isLine (noEnd : isLineEnd char = false) (line rest : List Char) :
    linesFrom line (char :: rest) = linesFrom (char :: line) rest := by
  have notReturn : char ≠ '\r' := by
    rintro rfl
    exact absurd noEnd (by decide)
  rw [linesFrom]
  · rw [if_neg (by simp [noEnd])]
  · simp [notReturn]

theorem linesFrom_cons_of_isLineEnd (isEnd : isLineEnd char)
    (noPair : ∀ more, char = '\r' → rest = '\n' :: more → False) (line : List Char) :
    linesFrom line (char :: rest) = line.reverse :: linesFrom [] rest := by
  rw [linesFrom]
  · rw [if_pos isEnd]
  · exact noPair

/-- A line in front of a line feed is the first of the lines. -/
theorem linesFrom_append (isLine : IsLine text) (line rest : List Char) :
    linesFrom line (text ++ '\n' :: rest) = (line.reverse ++ text) :: linesFrom [] rest := by
  induction text generalizing line with
  | nil => simp [linesFrom_cons_of_isLineEnd (show isLineEnd '\n' = true by decide)]
  | cons _ _ ih =>
    rw [IsLine, forall_mem_cons] at isLine
    rw [cons_append, linesFrom_cons_of_isLine isLine.1, ih isLine.2]
    simp

theorem joinWith_eq_intercalate (sep : List Char) (texts : List (List Char)) :
    joinWith sep texts = intercalate sep texts := by
  induction texts with
  | nil => rfl
  | cons _ others ih =>
    cases others with
    | nil => rw [joinWith, intercalate_singleton]
    | cons => rw [joinWith, intercalate_cons_cons, ih]; simp

/-- Lines with something between them that ends no line are a line. -/
theorem isLine_intercalate (isLine : IsLine sep) (areLines : ∀ text ∈ texts, IsLine text) :
    IsLine (intercalate sep texts) := by
  induction texts with
  | nil => exact nofun
  | cons _ others ih =>
    rw [forall_mem_cons] at areLines
    have othersAreLine := ih areLines.2
    cases others with
    | nil =>
      rw [intercalate_singleton]
      exact areLines.1
    | cons =>
      rw [intercalate_cons_cons]
      exact (areLines.1.append isLine).append othersAreLine

/-- The text is not empty and does not end with a blank. -/
def EndsPlain (text : List Char) : Prop := ∃ last, text.getLast? = some last ∧ isBlank last = false

theorem EndsPlain.append (endsPlain : EndsPlain back) (front : List Char) :
    EndsPlain (front ++ back) := by
  obtain ⟨last, isLast, notBlank⟩ := endsPlain
  exact ⟨last, by rw [getLast?_append, isLast]; rfl, notBlank⟩

/-- Texts that are joined end as the last of them does. -/
theorem endsPlain_intercalate (isSome : texts ≠ []) (endPlain : ∀ text ∈ texts, EndsPlain text) :
    EndsPlain (intercalate sep texts) := by
  induction texts with
  | nil => exact absurd rfl isSome
  | cons _ others ih =>
    rw [forall_mem_cons] at endPlain
    cases others with
    | nil =>
      rw [intercalate_singleton]
      exact endPlain.1
    | cons =>
      rw [intercalate_cons_cons]
      exact (ih (cons_ne_nil _ _) endPlain.2).append _

/-- A text that starts with a character that is not blank and ends with one is not changed. -/
theorem EndsPlain.trim_cons (endsPlain : EndsPlain (first :: rest))
    (notBlank : isBlank first = false) :
    trim (first :: rest) = first :: rest := by
  obtain ⟨last, isLast, lastNotBlank⟩ := endsPlain
  refine trim_eq_self ?_ ?_
  · rintro _ ⟨⟩
    exact notBlank
  · intro found isFound
    obtain rfl := Option.some.inj (isLast.symm.trans isFound)
    exact lastNotBlank

/-- Lines with a line feed behind each of them are the first lines of a text. -/
theorem lines_flatMap_append (areLines : ∀ text ∈ texts, IsLine text) (rest : List Char) :
    lines (texts.flatMap (· ++ ['\n']) ++ rest) = texts ++ lines rest := by
  induction texts with
  | nil => rfl
  | cons text _ ih =>
    rw [forall_mem_cons] at areLines
    rw [flatMap_cons, append_assoc, append_assoc, singleton_append, lines,
      linesFrom_append areLines.1]
    exact congrArg (text :: ·) (ih areLines.2)

theorem IsLine.count_lineFeed (isLine : IsLine text) : text.count '\n' = 0 :=
  count_eq_zero.mpr fun mem => absurd (isLine '\n' mem) (by decide)

theorem count_lineFeed_flatMap (areLines : ∀ text ∈ texts, IsLine text) :
    (texts.flatMap (· ++ ['\n'])).count '\n' = texts.length := by
  induction texts with
  | nil => rfl
  | cons _ _ ih =>
    rw [forall_mem_cons] at areLines
    simp [areLines.1.count_lineFeed, ih areLines.2]

theorem isLine_of_mem_lines (mem : line ∈ lines text) : IsLine line := by
  have noEnds :
      ∀ (passed text : List Char), IsLine passed → ∀ line ∈ linesFrom passed text, IsLine line := by
    intro passed text
    fun_induction linesFrom passed text with
    | case1 => simp
    | case2 =>
      intro isLine line mem
      rw [mem_singleton.mp mem]
      simpa [IsLine] using isLine
    | case3 passed rest ih
    | case4 _ _ _ _ _ ih =>
      intro isLine
      refine forall_mem_cons.mpr ⟨?_, ih nofun⟩
      simpa [IsLine] using isLine
    | case5 _ _ _ _ noEnd ih =>
      intro isLine
      refine ih (forall_mem_cons.mpr ⟨?_, isLine⟩)
      simpa using noEnd
  exact noEnds [] text nofun line mem

theorem isInfix_of_mem_lines (mem : line ∈ lines text) : line <:+: text := by
  have areParts :
      ∀ passed text : List Char,
        ∀ line ∈ linesFrom passed text, line <:+: passed.reverse ++ text := by
    intro passed text
    fun_induction linesFrom passed text with
    | case1 => simp
    | case2 => simp
    | case3 _ _ ih =>
      refine forall_mem_cons.mpr ⟨infix_append' [] _ _, fun line mem => ?_⟩
      exact infix_append_of_infix_right ((ih line mem).trans ⟨['\r', '\n'], [], by simp⟩)
    | case4 _ char _ _ _ ih =>
      refine forall_mem_cons.mpr ⟨infix_append' [] _ _, fun line mem => ?_⟩
      exact infix_append_of_infix_right ((ih line mem).trans ⟨[char], [], by simp⟩)
    | case5 _ _ _ _ _ ih => simpa using ih
  exact areParts [] text line mem

/-! ## Needles -/

/-- A character that is not in a needle parts the places where the needle may stand. -/
theorem isInfix_append_cons_iff (notMember : divider ∉ needle) (front back : List Char) :
    needle <:+: front ++ divider :: back ↔ needle <:+: front ∨ needle <:+: back := by
  constructor
  · rintro ⟨before, behind, isWhole⟩
    rcases append_eq_append_iff.mp isWhole with ⟨more, isFront, _⟩ | ⟨more, isMiddle, isRest⟩
    · exact .inl ⟨before, more, isFront.symm⟩
    · cases more with
      | nil => exact .inl ⟨before, [], by simpa using isMiddle⟩
      | cons =>
        obtain ⟨rfl, rfl⟩ := cons.inj isRest
        -- The divider cannot be a part of the needle, so the needle starts behind it.
        rcases append_eq_append_iff.mp isMiddle with
          ⟨part, _, isNeedle⟩ | ⟨between, _, isBetween⟩
        · exact absurd (by simp [isNeedle]) notMember
        · cases between with
          | nil =>
            rw [nil_append] at isBetween
            exact absurd (by simp [← isBetween]) notMember
          | cons _ between =>
            obtain ⟨rfl, rfl⟩ := cons.inj isBetween
            exact .inr ⟨between, behind, rfl⟩
  · rintro (inFront | inBack)
    · exact inFront.trans (prefix_append front _).isInfix
    · exact inBack.trans ((suffix_cons divider back).trans (suffix_append front _)).isInfix

/-- A needle that stands in none of the lines, nor behind them, does not stand in the text. -/
theorem not_isInfix_flatMap_append (notMember : '\n' ∉ needle)
    (inNone : ∀ text ∈ texts, ¬ needle <:+: text) (notBehind : ¬ needle <:+: rest) :
    ¬ needle <:+: texts.flatMap (· ++ ['\n']) ++ rest := by
  induction texts with
  | nil => exact notBehind
  | cons _ _ ih =>
    rw [forall_mem_cons] at inNone
    rw [flatMap_cons, append_assoc, append_assoc, singleton_append,
      isInfix_append_cons_iff notMember, not_or]
    exact ⟨inNone.1, ih inNone.2⟩

/-- A text is cut at a needle behind a text in which it cannot start. -/
theorem cutAt?_append {needle : List Char} (isFirst : ¬ needle <:+: before ++ needle.dropLast)
    (rest : List Char) :
    cutAt? needle (before ++ needle ++ rest) = some (before, rest) := by
  induction before with
  | nil =>
    obtain ⟨first, others, rfl⟩ : ∃ first others, needle = first :: others := by
      cases needle with
      | nil => exact absurd infix_rfl isFirst
      | cons first others => exact ⟨first, others, rfl⟩
    rw [nil_append, cons_append, cutAt?, ← cons_append, after?_append_self]
  | cons char before ih =>
    have laterFirst : ¬ needle <:+: before ++ needle.dropLast := fun later =>
      isFirst (later.trans (suffix_cons char _).isInfix)
    have notHere : after? needle (char :: (before ++ needle ++ rest)) = none := by
      cases starts : after? needle (char :: (before ++ needle ++ rest)) with
      | none => rfl
      | some behind =>
        -- A needle that starts here ends in front of the last character of the one behind.
        refine absurd ?_ isFirst
        have isPrefix : needle <+: char :: (before ++ needle ++ rest) :=
          ⟨behind, (eq_append_of_after? starts).symm⟩
        have front :
            char :: before ++ needle.dropLast <+:
              char :: (before ++ needle ++ rest) := by
          rw [append_assoc]
          exact (prefix_append_right_inj _).mpr
            ((List.dropLast_prefix needle).trans (prefix_append needle rest))
        refine (prefix_of_prefix_length_le isPrefix front ?_).isInfix
        simp
        omega
    rw [cons_append, cons_append, cutAt?, notHere, ih laterFirst]
    rfl

end Weave.Text
