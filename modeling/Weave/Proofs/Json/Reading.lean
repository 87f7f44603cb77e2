import Mathlib
import Weave.Proofs.Decimal.Numeral
import Weave.Proofs.Json.Quoted
import Weave.Proofs.Value.Entries

namespace Weave.Json

open List Decimal Text

/-!
# Which texts are read as which values

A text reads as a value if the reader takes the text off the front of whatever follows it and
leaves the value.  The words, the integers, the quoted strings, and lists and objects of such
texts, with any blanks between the parts, all do.  A list or an object with a part that is no such
text is refused.
-/

variable {lead rest : List Char} {first closing : Char} {bound : Nat} {value : Int} {α : Type}

/-- What may follow a value: nothing, a blank, or a sign that no value goes on with. -/
def Delimited (rest : List Char) : Prop :=
  ∀ next, rest.head? = some next → isBlank next = true ∨ next = ',' ∨ next = ']' ∨ next = '}'

/-- All characters are blanks. -/
def AreBlank (text : List Char) : Prop := ∀ character ∈ text, isBlank character = true

/-- A reader leaves what it has found in front of the rest, or refuses the text. -/
def left {α : Type} (rest : List Char) : Option α → Except Defect (α × List Char)
  | some found => .ok (found, rest)
  | none => .error .badJson

/-- The text is read as the value, or refused, by a reader that goes deep enough. -/
structure Reads (text : List Char) (outcome : Option Value) : Prop where
  starts : ∃ first rest, text = first :: rest ∧ isBlank first = false ∧ first ≠ ']'
  run : ∀ {bound : Nat} {rest : List Char},
    text.length < bound → Delimited rest → valueWithin bound (text ++ rest) = left rest outcome

theorem skipBlanks_append (blank : AreBlank lead) (text : List Char) :
    skipBlanks (lead ++ text) = skipBlanks text :=
  dropWhile_append_of_pos blank

theorem skipBlanks_cons (solid : isBlank first = false) (rest : List Char) :
    skipBlanks (first :: rest) = first :: rest := by
  simp [skipBlanks, solid]

/-- Behind blanks and a sign that ends a value, a value may end. -/
theorem Delimited.of_blanks {sign : Char} (blank : AreBlank lead)
    (ends : sign = ',' ∨ sign = ']' ∨ sign = '}') (rest : List Char) :
    Delimited (lead ++ sign :: rest) := by
  intro next found
  cases lead with
  | nil =>
    cases found
    exact .inr ends
  | cons first =>
    obtain rfl : first = next := by simpa using found
    exact .inl (blank first mem_cons_self)

/-- A text whose first character opens neither a string nor a list nor an object is a word or a
number. -/
theorem valueWithin_scalar (plain : first ≠ '"' ∧ first ≠ '[' ∧ first ≠ '{') :
    valueWithin (bound + 1) (first :: rest) = scalar (first :: rest) := by
  obtain ⟨notQuote, notBracket, notBrace⟩ := plain
  unfold valueWithin
  split
  · exact absurd (cons.inj ‹_›).1 notQuote
  · exact absurd (cons.inj ‹_›).1 notBracket
  · exact absurd (cons.inj ‹_›).1 notBrace
  · rfl

/-! ## Words -/

/-- A text that is read at any depth, whatever follows it. -/
theorem Reads.of_run {found : Value} (solid : isBlank first = false) (notClosing : first ≠ ']')
    (run : ∀ bound rest, valueWithin (bound + 1) (first :: lead ++ rest) = .ok (found, rest)) :
    Reads (first :: lead) (some found) := by
  refine ⟨⟨first, lead, rfl, solid, notClosing⟩, fun {bound rest} deep _ => ?_⟩
  obtain ⟨_, rfl⟩ := Nat.exists_eq_add_of_lt deep
  exact run _ rest

theorem Reads.null : Reads "null".toList (some .null) :=
  .of_run rfl (by decide) fun _ _ => rfl

theorem Reads.bool (value : Bool) :
    Reads (if value then "true" else "false").toList (some (.bool value)) := by
  cases value <;> exact .of_run rfl (by decide) fun _ _ => rfl

/-! ## Integers -/

theorem digitsValue_decimal (number : Nat) :
    digitsValue (decimal number) = number := by
  have value := @Nat.ofDigitChars_ten_toDigits number
  simp only [Nat.ofDigitChars_eq_foldl, Nat.mul_comm] at value
  exact value

theorem isDigit_of_mem_decimal (number : Nat) {digit : Char} (mem : digit ∈ decimal number) :
    digit.isDigit :=
  Nat.isDigit_of_mem_toDigits (by decide) (by decide) mem

theorem decimal_eq_zero_or_first (number : Nat) : decimal number = ['0'] ∨
      ∃ first rest, decimal number = first :: rest ∧ first ≠ '0' := by
  induction number using Nat.strongRecOn with
  | _ number ih =>
    unfold decimal at ih ⊢
    by_cases small : number < 10
    · rw [Nat.toDigits_of_lt_base small]
      by_cases isZero : number.digitChar = '0'
      · exact .inl (by rw [isZero])
      · exact .inr ⟨_, _, rfl, isZero⟩
    · have shape := Nat.toDigits_of_base_le (by decide : 1 < 10) (Nat.le_of_not_lt small)
      rcases ih (number / 10) (by omega) with isZero | ⟨first, rest, front, notZero⟩
      · have value := digitsValue_decimal (number / 10)
        rw [decimal, isZero] at value
        exact absurd value (by simp [digitsValue]; omega)
      · exact .inr ⟨first, _, by rw [shape, front, cons_append], notZero⟩

/-- A sign that ends a value continues no number. -/
theorem Delimited.not_numeric (delimited : Delimited rest) {next : Char}
    (found : rest.head? = some next) :
    next.isDigit = false ∧ next ≠ '.' ∧ next ≠ 'e' ∧ next ≠ 'E' := by
  have cases := delimited next found
  simp only [isBlank, Bool.or_eq_true, beq_iff_eq] at cases
  rcases cases with (((rfl | rfl) | rfl) | rfl) | rfl | rfl | rfl <;> decide

theorem spanDigits_append (areDigits : ∀ digit ∈ digits, digit.isDigit)
    (delimited : Delimited rest) :
    spanDigits (digits ++ rest) = (digits, rest) := by
  rw [spanDigits, takeWhile_append_of_pos areDigits, dropWhile_append_of_pos areDigits]
  cases rest with
  | nil => simp
  | cons => simp [(delimited.not_numeric rfl).1]

theorem wholePart_decimal (number : Nat) (delimited : Delimited rest) :
    wholePart (decimal number ++ rest) = (decimal number, rest) := by
  rcases decimal_eq_zero_or_first number with isZero | ⟨first, others, shape, notZero⟩
  · rw [isZero]
    rfl
  · have span := spanDigits_append (fun _ => isDigit_of_mem_decimal number) delimited
    rw [shape] at span ⊢
    unfold wholePart
    split
    · exact absurd (cons.inj ‹_›).1 notZero
    · exact span

theorem fractionPart_of_delimited (delimited : Delimited rest) :
    fractionPart rest = ([], rest) := by
  cases rest with
  | nil => rfl
  | cons =>
    obtain ⟨_, notPoint, _⟩ := delimited.not_numeric rfl
    unfold fractionPart
    split
    · exact absurd (cons.inj ‹_›).1 notPoint
    · rfl

theorem exponentPart_of_delimited (delimited : Delimited rest) :
    exponentPart rest = (none, rest) := by
  cases rest with
  | nil => rfl
  | cons =>
    obtain ⟨_, _, notLower, notUpper⟩ := delimited.not_numeric rfl
    simp [exponentPart, notLower, notUpper]

/-- The characters of an integer: a sign in front of a negative one, then its digits. -/
theorem toList_writeInt (value : Int) : (writeInt value).toList =
      if value < 0 then '-' :: decimal value.natAbs else decimal value.natAbs := by
  simp [writeInt]

theorem decimal_starts (number : Nat) :
    ∃ digit others, decimal number = digit :: others ∧ digit.isDigit := by
  obtain ⟨digit, others, shape⟩ := exists_cons_of_ne_nil (@Nat.toDigits_ne_nil number 10)
  exact ⟨digit, others, shape, isDigit_of_mem_decimal number (by rw [decimal, shape]; simp)⟩

/-- The first character of an integer, and the digit behind its sign. -/
theorem writeInt_starts (value : Int) :
    ∃ first rest, (writeInt value).toList = first :: rest ∧
      (first.isDigit ∨
        first = '-' ∧ ∃ digit others, rest = digit :: others ∧ digit.isDigit) := by
  obtain ⟨digit, others, shape, isDigit⟩ := decimal_starts value.natAbs
  rw [toList_writeInt, shape]
  by_cases negative : value < 0
  · exact ⟨'-', digit :: others, by rw [if_pos negative], .inr ⟨rfl, digit, others, rfl, isDigit⟩⟩
  · exact ⟨digit, others, by rw [if_neg negative], .inl isDigit⟩

theorem number_writeInt (short : (decimal value.natAbs).length ≤ integerDigitLimit)
    (delimited : Delimited rest) :
    number ((writeInt value).toList ++ rest) = .ok (.int value, rest) := by
  obtain ⟨_, others, shape, isDigit⟩ := decimal_starts value.natAbs
  have notEmpty : (decimal value.natAbs).isEmpty = false := by rw [shape]; rfl
  rw [toList_writeInt]
  by_cases negative : value < 0
  case' pos =>
    have restored : signed true value.natAbs = value := by
      simp only [signed, if_true]
      omega
    rw [if_pos negative]
  case' neg =>
    have restored : signed false value.natAbs = value := by
      simp only [signed, Bool.false_eq_true, if_false]
      omega
    have noSign : ∀ others, decimal value.natAbs ++ rest ≠ '-' :: others := by
      rintro _ same
      rw [shape] at same
      rw [(cons.inj same).1] at isDigit
      cases isDigit
    rw [if_neg negative]
  all_goals simp only [number, cons_append, wholePart_decimal _ delimited,
    fractionPart_of_delimited delimited, exponentPart_of_delimited delimited, notEmpty,
    Bool.false_eq_true, if_false, isEmpty_nil, Option.isNone_none, Bool.and_self, if_true,
    short.not_gt, digitsValue_decimal, restored]

theorem ne_of_isDigit (isDigit : first.isDigit) (other : Char)
    (notDigit : other.isDigit = false) :
    other ≠ first := by
  rintro rfl
  rw [isDigit] at notDigit
  cases notDigit

/-- No word starts like an integer. -/
theorem scalar_writeInt (value : Int) (rest : List Char) :
    scalar ((writeInt value).toList ++ rest) =
      number ((writeInt value).toList ++ rest) := by
  obtain ⟨_, _, shape, isDigit | ⟨rfl, _, _, rfl, isDigit⟩⟩ :=
    writeInt_starts value
  · have differs := ne_of_isDigit isDigit
    simp [scalar, wordValues, shape, afterWord?, differs 'n' rfl, differs 't' rfl, differs 'f' rfl,
      differs 'N' rfl, differs 'I' rfl, differs '-' rfl]
  · simp [scalar, wordValues, shape, afterWord?, ne_of_isDigit isDigit 'I' rfl]

theorem Reads.int (short : (decimal value.natAbs).length ≤ integerDigitLimit) :
    Reads (writeInt value).toList (some (.int value)) := by
  obtain ⟨first, others, shape, start⟩ := writeInt_starts value
  have solid :
      isBlank first = false ∧ first ≠ ']' ∧ first ≠ '"' ∧ first ≠ '[' ∧ first ≠ '{' := by
    rcases start with isDigit | ⟨rfl, _⟩
    · have differs := fun other notDigit => (ne_of_isDigit isDigit other notDigit).symm
      refine ⟨?_, differs ']' rfl, differs '"' rfl, differs '[' rfl, differs '{' rfl⟩
      simp [isBlank, differs ' ' rfl, differs '\t' rfl, differs '\n' rfl, differs '\r' rfl]
    · exact ⟨rfl, by decide, by decide, by decide, by decide⟩
  obtain ⟨notBlank, notClosing, plain⟩ := solid
  refine ⟨⟨first, others, shape, notBlank, notClosing⟩, ?_⟩
  intro bound rest deep delimited
  obtain ⟨depth, rfl⟩ := Nat.exists_eq_add_of_lt deep
  have asScalar :
      valueWithin ((writeInt value).toList.length + depth + 1)
          ((writeInt value).toList ++ rest) =
        scalar ((writeInt value).toList ++ rest) := by
    rw [shape]
    exact valueWithin_scalar plain
  rw [asScalar, scalar_writeInt, number_writeInt short delimited, left]

/-! ## Strings -/

theorem toList_quote (asciiOnly : Bool) (text : String) :
    (quote asciiOnly text).toList = '"' :: (text.toList.flatMap (escaped asciiOnly) ++ ['"']) := by
  simp [quote]

theorem Reads.text (asciiOnly : Bool) (value : String) :
    Reads (quote asciiOnly value).toList (some (.text value)) := by
  rw [toList_quote]
  refine .of_run (by decide) (by decide) fun bound rest => ?_
  simp only [cons_append, append_assoc]
  rw [valueWithin]
  simp only [stringFrom_flatMap_escaped]
  simp [bind, Except.bind, pure, Except.pure]

/-! ## Parts between brackets -/

/-- The blanks around the parts of a list or an object: behind the opening sign and each comma,
in front of each part, and in front of the closing sign. -/
structure Spacing where
  gap : List Char
  margin : List Char
  tail : List Char
  gapBlank : AreBlank gap
  marginBlank : AreBlank margin
  tailBlank : AreBlank tail

/-- What stands between the opening and the closing sign. -/
def Spacing.around (spacing : Spacing) (parts : List (List Char)) : List Char :=
  spacing.gap ++ (',' :: spacing.gap).intercalate (parts.map (spacing.margin ++ ·)) ++ spacing.tail

/-- A text of a part behind blanks is read as a part, or refused. -/
def ReadsPart {α : Type} (part : List Char → Except Defect (α × List Char)) (text : List Char)
    (outcome : Option α) : Prop :=
  ∀ lead rest : List Char, AreBlank lead → Delimited rest →
    part (lead ++ text ++ rest) = left rest outcome

theorem Spacing.leadBlank (spacing : Spacing) : AreBlank (spacing.gap ++ spacing.margin) := by
  intro char mem
  rcases mem_append.mp mem with inGap | inMargin
  · exact spacing.gapBlank char inGap
  · exact spacing.marginBlank char inMargin

/-- A text of parts is read as the parts, whatever the blanks between them, or refused with one of
them. -/
theorem seriesOf_around {part : List Char → Except Defect (α × List Char)}
    (closes : closing = ']' ∨ closing = '}') (spacing : Spacing) {texts : List (List Char)}
    {outcomes : List (Option α)} (reads : Forall₂ (ReadsPart part) texts outcomes)
    (notEmpty : texts ≠ []) (enough : texts.length ≤ bound) (rest : List Char) :
    seriesOf part closing bound (spacing.around texts ++ closing :: rest) =
      left rest (outcomes.mapM id) := by
  have notComma : closing ≠ ',' := by
    rcases closes with rfl | rfl <;> decide
  have closingSolid : isBlank closing = false := by
    rcases closes with rfl | rfl <;> decide
  induction reads generalizing bound with
  | nil => exact absurd rfl notEmpty
  | @cons text outcome texts outcomes firstReads restReads ih =>
    rcases bound with _ | count
    · cases enough
    rw [mapM_cons]
    cases texts with
    | nil =>
      cases restReads
      have shape :
          spacing.around [text] ++ closing :: rest =
            (spacing.gap ++ spacing.margin) ++ text ++ (spacing.tail ++ closing :: rest) := by
        simp [Spacing.around]
      rw [shape, seriesOf, firstReads _ _ spacing.leadBlank
        (Delimited.of_blanks spacing.tailBlank (.inr closes) rest)]
      cases outcome with
      | none => rfl
      | some =>
        simp only [left, bind, Except.bind, skipBlanks_append spacing.tailBlank,
          skipBlanks_cons closingSolid, if_neg notComma, if_true]
        rfl
    | cons second others =>
      have shape :
          spacing.around (text :: second :: others) ++ closing :: rest =
            (spacing.gap ++ spacing.margin) ++ text ++
              ([] ++ ',' :: (spacing.around (second :: others) ++ closing :: rest)) := by
        simp [Spacing.around, intercalate_cons_cons]
      have noBlank : AreBlank [] := fun _ mem => absurd mem not_mem_nil
      have further := ih (by simp) (Nat.le_of_succ_le_succ enough)
      rw [shape, seriesOf,
        firstReads _ _ spacing.leadBlank (Delimited.of_blanks noBlank (.inl rfl) _)]
      cases outcome with
      | none => rfl
      | some =>
        simp only [left, bind, Except.bind, skipBlanks_append noBlank,
          skipBlanks_cons (show isBlank ',' = false by decide), if_true, further]
        cases outcomes.mapM id <;> rfl

/-- What stands between the signs is at least as long as its parts together. -/
theorem Spacing.sum_le_around (spacing : Spacing) (parts : List (List Char)) :
    (parts.map length).sum ≤ (spacing.around parts).length := by
  have joined : (parts.map length).sum ≤
      ((',' :: spacing.gap).intercalate (parts.map (spacing.margin ++ ·))).length := by
    induction parts with
    | nil => exact Nat.zero_le _
    | cons _ others ih =>
      cases others with
      | nil => simp
      | cons =>
        simp only [map_cons, sum_cons, intercalate_cons_cons, length_append] at ih ⊢
        omega
  simp only [Spacing.around, length_append]
  omega

/-- The first character between the signs that is no blank is the first one of the first part. -/
theorem Spacing.skipBlanks_around (spacing : Spacing) (solid : isBlank first = false)
    (others : List Char) (parts : List (List Char)) (rest : List Char) :
    ∃ further,
      skipBlanks (spacing.around ((first :: others) :: parts) ++ rest) = first :: further := by
  have front :
      ∃ further,
        (',' :: spacing.gap).intercalate (((first :: others) :: parts).map (spacing.margin ++ ·)) =
          spacing.margin ++ first :: further := by
    cases parts with
    | nil => exact ⟨others, by simp⟩
    | cons =>
      exact ⟨_, by
        rw [map_cons, map_cons, intercalate_cons_cons, append_assoc, append_assoc, cons_append]⟩
  obtain ⟨further, shape⟩ := front
  refine ⟨further ++ spacing.tail ++ rest, ?_⟩
  rw [Spacing.around, shape]
  simp only [append_assoc, cons_append]
  rw [skipBlanks_append spacing.gapBlank, skipBlanks_append spacing.marginBlank,
    skipBlanks_cons solid]

/-- The parts of a list or an object are read within the depth that its whole text needs, and the
first one does not look like the closing sign. -/
theorem seriesOf_within (part : List Char → Except Defect (α × List Char))
    (closes : closing = ']' ∨ closing = '}') (spacing : Spacing)
    {reads : List Char → Option α → Prop} {texts : List (List Char)} {outcomes : List (Option α)}
    (readsEach : Forall₂ reads texts outcomes) (notEmpty : texts ≠ []) {depth : Nat}
    (starts : ∀ text outcome, reads text outcome →
      ∃ first rest, text = first :: rest ∧ isBlank first = false ∧ first ≠ closing)
    (readsPart : ∀ text outcome, reads text outcome → text.length < depth →
      ReadsPart part text outcome)
    (deep : (spacing.around texts).length < depth) (rest : List Char) : (∃ first further,
      skipBlanks (spacing.around texts ++ closing :: rest) = first :: further ∧ first ≠ closing) ∧
      seriesOf part closing (depth + 1) (spacing.around texts ++ closing :: rest) =
        left rest (outcomes.mapM id) := by
  have startsEach := ((forall₂_and_left _ _).mp
    (readsEach.imp fun text outcome textReads => ⟨starts text outcome textReads, textReads⟩)).1
  have solidEach : ∀ text ∈ texts, text ≠ [] := by
    intro text mem
    obtain ⟨first, others, rfl, _⟩ := startsEach text mem
    simp
  have short := spacing.sum_le_around texts
  have count : texts.length ≤ (texts.map length).sum := by
    have := length_le_sum_of_one_le (texts.map length)
      (forall_mem_map.mpr fun text mem => length_pos_iff.mpr (solidEach text mem))
    rwa [length_map] at this
  have deepEach (text) (mem : text ∈ texts) : text.length < depth := by
    have := single_le_sum (fun _ _ => Nat.zero_le _) _ (mem_map_of_mem (f := length) mem)
    omega
  have partsRead : Forall₂ (ReadsPart part) texts outcomes :=
    ((forall₂_and_left _ _).mpr ⟨deepEach, readsEach⟩).imp fun text outcome facts =>
      readsPart text outcome facts.2 facts.1
  refine ⟨?_, seriesOf_around closes spacing partsRead notEmpty (by omega) rest⟩
  obtain ⟨text, others, rfl⟩ := exists_cons_of_ne_nil notEmpty
  obtain ⟨first, behind, rfl, solid, notClosing⟩ := startsEach text mem_cons_self
  obtain ⟨further, skipped⟩ := spacing.skipBlanks_around solid behind others (closing :: rest)
  exact ⟨first, further, skipped, notClosing⟩

/-! ## Lists and objects -/

section

variable {text : List Char} {outcome : Option Value} {texts : List (List Char)}

theorem Reads.part (reads : Reads text outcome) (deep : text.length < bound) :
    ReadsPart (fun text => valueWithin bound (skipBlanks text)) text outcome := by
  intro lead rest blank delimited
  obtain ⟨_, _, shape, solid, _⟩ := reads.starts
  have skipped : skipBlanks (lead ++ text ++ rest) = text ++ rest := by
    rw [append_assoc, skipBlanks_append blank, shape, cons_append, skipBlanks_cons solid]
  simp only [skipped, reads.run deep delimited]

theorem Reads.emptyList : Reads ['[', ']'] (some (.array [])) :=
  .of_run rfl (by decide) fun _ _ => rfl

theorem Reads.list (spacing : Spacing) {outcomes : List (Option Value)}
    (reads : Forall₂ Reads texts outcomes) (notEmpty : texts ≠ []) :
    Reads ('[' :: (spacing.around texts ++ [']'])) ((outcomes.mapM id).map .array) := by
  refine ⟨⟨'[', _, rfl, by decide, by decide⟩, ?_⟩
  intro bound rest deep _
  simp only [length_cons, length_append] at deep
  rcases bound with _ | depth
  · omega
  obtain ⟨⟨_, _, skipped, notClosing⟩, series⟩ :=
    seriesOf_within (fun text => valueWithin depth (skipBlanks text)) (.inl rfl) spacing
      reads notEmpty (fun _ _ textReads => textReads.starts) (fun _ _ textReads => textReads.part)
      (by omega) rest
  simp only [cons_append, append_assoc, nil_append] at series skipped ⊢
  rw [valueWithin, skipped]
  split
  · exact absurd (cons.inj ‹_›).1 notClosing
  · rw [series]
    cases outcomes.mapM id <;> rfl

/-- The text is read as an entry of an object, or refused, by a reader that goes deep enough. -/
structure ReadsEntry (text : List Char) (outcome : Option (Key × Value)) : Prop where
  starts : ∃ first rest, text = first :: rest ∧ isBlank first = false ∧ first ≠ '}'
  part : ∀ {bound : Nat},
    text.length < bound → ReadsPart (entryOf (valueWithin bound)) text outcome

/-- A quoted name, a colon and a text that reads as a value make an entry. -/
theorem Reads.entry (reads : Reads text outcome) (asciiOnly : Bool) (name : String)
    (blank : AreBlank lead) :
    ReadsEntry ((quote asciiOnly name).toList ++ ':' :: (lead ++ text))
      (outcome.map (.text name, ·)) := by
  rw [toList_quote]
  refine ⟨⟨'"', _, rfl, by decide, by decide⟩, ?_⟩
  intro bound deep front rest frontBlank delimited
  have textDeep : text.length < bound := by
    simp only [length_cons, length_append] at deep
    omega
  obtain ⟨_, _, shape, solid, _⟩ := reads.starts
  have skipped : skipBlanks (lead ++ (text ++ rest)) = text ++ rest := by
    rw [skipBlanks_append blank, shape, cons_append, skipBlanks_cons solid]
  simp only [cons_append, append_assoc, nil_append]
  rw [entryOf, skipBlanks_append frontBlank, skipBlanks_cons (show isBlank '"' = false by decide)]
  simp only [stringFrom_flatMap_escaped, bind, Except.bind,
    skipBlanks_cons (show isBlank ':' = false by decide), skipped, reads.run textDeep delimited]
  cases outcome with
  | none => rfl
  | some => simp [left, pure, Except.pure]

theorem ReadsEntry.unquoted (solid : isBlank first = false) (notClosing : first ≠ '}')
    (notQuote : first ≠ '"') (rest : List Char) :
    ReadsEntry (first :: rest) none := by
  refine ⟨⟨first, rest, rfl, solid, notClosing⟩, ?_⟩
  intro bound deep lead following blank delimited
  rw [entryOf, append_assoc, skipBlanks_append blank, cons_append, skipBlanks_cons solid]
  split
  · exact absurd (cons.inj ‹_›).1 notQuote
  · rfl

theorem Reads.emptyObject : Reads ['{', '}'] (some (.record [])) :=
  .of_run rfl (by decide) fun _ _ => rfl

/-- The entries between braces are read as an object, if their keys differ. -/
theorem Reads.object (spacing : Spacing) {outcomes : List (Option (Key × Value))}
    (reads : Forall₂ ReadsEntry texts outcomes) (notEmpty : texts ≠ [])
    (unique : ∀ entries, outcomes.mapM id = some entries → (entries.map Prod.fst).Nodup) :
    Reads ('{' :: (spacing.around texts ++ ['}'])) ((outcomes.mapM id).map .record) := by
  refine ⟨⟨'{', _, rfl, by decide, by decide⟩, ?_⟩
  intro bound rest deep _
  simp only [length_cons, length_append] at deep
  rcases bound with _ | depth
  · omega
  obtain ⟨⟨_, _, skipped, notClosing⟩, series⟩ :=
    seriesOf_within (entryOf (valueWithin depth)) (.inr rfl) spacing reads notEmpty
      (fun _ _ entryReads => entryReads.starts) (fun _ _ entryReads => entryReads.part) (by omega)
      rest
  simp only [cons_append, append_assoc, nil_append] at series skipped ⊢
  rw [valueWithin, skipped]
  split
  · exact absurd (cons.inj ‹_›).1 notClosing
  · rw [series]
    cases isFound : outcomes.mapM id with
    | none => rfl
    | some entries =>
      simp only [left, bind, Except.bind, Entries.ofList_of_nodup (unique entries isFound)]
      rfl

/-- A whole text that reads as a value is that value, and one that is refused is none. -/
theorem Reads.read (reads : Reads text outcome) :
    read text = outcome.elim (.error .badJson) .ok := by
  obtain ⟨_, _, shape, solid, _⟩ := reads.starts
  have skipped : skipBlanks text = text := by
    rw [shape, skipBlanks_cons solid]
  have delimited : Delimited [] := by
    intro next found
    cases found
  have run : valueWithin (text.length + 1) (text ++ []) = left [] outcome :=
    reads.run (by omega) delimited
  rw [append_nil] at run
  rw [Json.read, skipped, run]
  cases outcome <;> rfl

end

end Weave.Json
