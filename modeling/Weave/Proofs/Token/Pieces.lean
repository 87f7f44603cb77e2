import Mathlib.Data.List.Infix
import Mathlib.Data.List.TakeWhile
import Weave.Proofs.Text.Digit
import Weave.Token.Scan

namespace Weave

open List Text

/-!
# What a source is cut into

A gap is a stretch of blanks, a comment up to the end of its line or a comment between its marks.  A
lexeme is a number, a string, a word or a sign, as long as nothing stands behind it that it would go
on with.  A source is scanned into tokens exactly if it is made of gaps and the lexemes of the
tokens.
-/

namespace Token

variable {isPart : Char → Bool} {text rest front others lexeme body : List Char}
  {first character : Char} {kind : Kind} {found : Piece} {fuel : Nat} {pos : Position}
  {tokens : List Token}

/-- The text is one gap in front of the rest of a source. -/
inductive IsGapPiece : List Char → List Char → Prop
  | blanks {text rest : List Char} (blank : ∀ character ∈ text, Text.isBlank character = true) :
      IsGapPiece text rest
  | lineComment {body rest : List Char} (oneLine : '\n' ∉ body)
      (toLineEnd : ∀ next ∈ rest.head?, next = '\n') :
      IsGapPiece ('/' :: '/' :: body) rest
  | blockComment {body rest : List Char} (closesFirst : ¬ ['*', '/'] <:+: body ++ ['*']) :
      IsGapPiece ('/' :: '*' :: body ++ ['*', '/']) rest

/-- The text is a word: a letter or an underscore, then letters, digits and underscores. -/
def isName : List Char → Bool
  | [] => false
  | first :: rest => isWordStart first && rest.all isWordPart

/-- What stands in front of the rest does not go on with it. -/
def Stops (isPart : Char → Bool) (rest : List Char) : Prop :=
  ∀ next ∈ rest.head?, isPart next = false

/-- The text is one lexeme of the kind in front of the rest of a source. -/
inductive IsLexeme : Kind → List Char → List Char → Prop
  | whole {rest : List Char} (notEmpty : digits ≠ [])
      (areDigits : ∀ digit ∈ digits, Text.isDigit digit = true) (stops : Stops Text.isDigit rest)
      (noFraction : ∀ more, rest = '.' :: more → Stops Text.isDigit more) :
      IsLexeme .number digits rest
  | fraction {rest : List Char} (hasWhole : whole ≠ []) (notEmpty : digits ≠ [])
      (areDigits : ∀ digit ∈ whole ++ digits, Text.isDigit digit = true)
      (stops : Stops Text.isDigit rest) :
      IsLexeme .number (whole ++ '.' :: digits) rest
  | string {body rest : List Char} (isQuote : quote = '"' ∨ quote = '\'')
      (closes : closeString quote body = some (body, [])) :
      IsLexeme .string (quote :: body) rest
  | word {text rest : List Char} (isWord : isName text = true) (stops : Stops isWordPart rest) :
      IsLexeme (wordKind text) text rest
  | pair {first : Char} {kind : Kind} {rest : List Char}
      (isPair : pairKind? first second = some kind) :
      IsLexeme kind [first, second] rest
  | sign {kind : Kind} {rest : List Char} (isSign : signKind? single = some kind)
      (isAlone : ∀ next ∈ rest.head?, pairKind? single next = none)
      (noComment : single = '/' → ∀ next ∈ rest.head?, next ≠ '/' ∧ next ≠ '*') :
      IsLexeme kind [single] rest

/-! ## Stretches of characters -/

theorem span_append (areParts : ∀ character ∈ front, isPart character)
    (stops : Stops isPart rest) :
    (front ++ rest).takeWhile isPart = front ∧ (front ++ rest).dropWhile isPart = rest := by
  rw [takeWhile_append_of_pos areParts, dropWhile_append_of_pos areParts]
  cases rest with
  | nil => simp
  | cons next => simp [stops next rfl]

theorem stops_dropWhile (isPart : Char → Bool) (text : List Char) :
    Stops isPart (text.dropWhile isPart) := by
  intro next isNext
  have stops := head?_dropWhile_not isPart text
  rw [Option.mem_def.mp isNext] at stops
  simpa using stops

/-- What follows a longer text than nothing is the same, whatever stands behind that text. -/
theorem Stops.replace (stops : Stops isPart (front ++ rest)) (other : Stops isPart others) :
    Stops isPart (front ++ others) := by
  cases front with
  | nil => exact other
  | cons => exact stops

/-! ## Comments and strings -/

/-- A comment between marks ends at the first closing mark. -/
theorem closeComment_eq_some (found : closeComment text = some (closed, rest)) : ∃ body,
      closed = body ++ ['*', '/'] ∧ text = body ++ '*' :: '/' :: rest ∧
        ¬ ['*', '/'] <:+: body ++ ['*'] := by
  fun_induction closeComment text generalizing closed with
  | case1 =>
    cases found
    exact ⟨[], rfl, rfl, by decide⟩
  | case2 character _ notMark ih =>
    simp only [Option.map_eq_some_iff, Prod.exists] at found
    obtain ⟨inner, left, innerFound, rfl, rfl⟩ := found
    obtain ⟨body, rfl, rfl, notInBody⟩ := ih innerFound
    refine ⟨character :: body, rfl, rfl, ?_⟩
    rw [cons_append, infix_cons_iff, not_or]
    refine ⟨?_, notInBody⟩
    -- A mark that starts here would have ended the comment here.
    rintro ⟨more, isFront⟩
    obtain ⟨rfl, isRest⟩ := cons.inj isFront
    cases body with
    | nil => cases isRest
    | cons =>
      obtain ⟨rfl, _⟩ := cons.inj isRest
      exact notMark _ rfl rfl
  | case3 => cases found

theorem closeComment_of_closesFirst (closesFirst : ¬ ['*', '/'] <:+: body ++ ['*'])
    (rest : List Char) :
    closeComment (body ++ '*' :: '/' :: rest) = some (body ++ ['*', '/'], rest) := by
  induction body with
  | nil => rfl
  | cons _ body ih =>
    rw [cons_append, infix_cons_iff, not_or] at closesFirst
    rw [cons_append, closeComment, ih closesFirst.2]
    · rfl
    · rintro behind rfl isBehind
      refine closesFirst.1 ?_
      cases body with
      | nil => cases isBehind
      | cons _ others =>
        obtain ⟨rfl, _⟩ := cons.inj isBehind
        exact ⟨others ++ ['*'], rfl⟩

/-- What is no backslash at the end and none in front of a character is none at all. -/
theorem ne_backslash (notAlone : character = '\\' → others = [] → False)
    (notEscape : ∀ escaped rest, character = '\\' → others = escaped :: rest → False) :
    character ≠ '\\' := by
  intro isBackslash
  cases others with
  | nil => exact notAlone isBackslash rfl
  | cons escaped rest => exact notEscape escaped rest isBackslash rfl

/-- A string ends at the same quote, whatever stands behind it. -/
theorem closeString_eq_some (closed : closeString quote text = some (body, rest)) :
    text = body ++ rest ∧ ∀ more, closeString quote (body ++ more) = some (body, more) := by
  fun_induction closeString quote text generalizing body with
  | case1 | case2 | case3 => cases closed
  | case4 _ _ notLineEnd ih =>
    simp only [Option.map_eq_some_iff, Prod.exists] at closed
    obtain ⟨inner, left, innerClosed, rfl, rfl⟩ := closed
    obtain ⟨rfl, closes⟩ := ih innerClosed
    refine ⟨rfl, fun more => ?_⟩
    rw [cons_append, cons_append, closeString, if_neg notLineEnd, closes]
    rfl
  | case5 _ notAlone notEscape =>
    cases closed
    have noEscape := ne_backslash notAlone notEscape
    refine ⟨rfl, fun more => ?_⟩
    rw [singleton_append, closeString, if_pos rfl]
    · exact fun isBackslash _ => noEscape isBackslash
    · exact fun _ _ isBackslash _ => noEscape isBackslash
  | case6 _ _ notAlone notEscape notQuote ih =>
    simp only [Option.map_eq_some_iff, Prod.exists] at closed
    obtain ⟨inner, left, innerClosed, rfl, rfl⟩ := closed
    have noEscape := ne_backslash notAlone notEscape
    obtain ⟨rfl, closes⟩ := ih innerClosed
    refine ⟨rfl, fun more => ?_⟩
    rw [cons_append, closeString, if_neg notQuote, closes]
    · rfl
    · exact fun isBackslash _ => noEscape isBackslash
    · exact fun _ _ isBackslash _ => noEscape isBackslash

/-! ## Lexemes -/

theorem isBlank_of_codes (codes : 33 ≤ character.toNat ∧ character.toNat ≤ 126) :
    isBlank character = false := by
  simp only [isBlank, Bool.or_eq_false_iff, Bool.and_eq_false_iff, decide_eq_false_iff_not,
    beq_eq_false_iff_ne]
  omega

/-- Unless a text starts with a blank or a comment, its first piece is its first lexeme. -/
theorem piece_of_lexeme? (notBlank : isBlank first = false)
    (noComment : first = '/' → ∀ next ∈ rest.head?, next ≠ '/' ∧ next ≠ '*')
    (found : lexeme? (first :: rest) = some (kind, lexeme, others)) :
    piece (first :: rest) = .ok (.lexeme kind lexeme, others) := by
  rw [piece]
  · simp [notBlank, found]
  · rintro more ⟨⟩
    exact (noComment rfl _ rfl).1 rfl
  · rintro more ⟨⟩
    exact (noComment rfl _ rfl).2 rfl

theorem numberPart_whole (areDigits : ∀ digit ∈ front, isDigit digit)
    (stops : Stops isDigit rest)
    (noFraction : ∀ more, rest = '.' :: more → Stops isDigit more) :
    numberPart (front ++ rest) = (front, rest) := by
  obtain ⟨taken, dropped⟩ := span_append areDigits stops
  rw [numberPart, taken, dropped]
  cases rest with
  | nil => rfl
  | cons next more =>
    by_cases isPoint : next = '.'
    · subst isPoint
      have noDigits : more.takeWhile isDigit = [] :=
        (@span_append _ more [] (by simp) (noFraction more rfl)).1
      simp [noDigits]
    · simp [isPoint]

theorem numberPart_fraction (notEmpty : digits ≠ [])
    (areDigits : ∀ digit ∈ front ++ digits, isDigit digit)
    (stops : Stops isDigit rest) :
    numberPart (front ++ '.' :: digits ++ rest) = (front ++ '.' :: digits, rest) := by
  obtain ⟨areWhole, areFraction⟩ := forall_mem_append.mp areDigits
  have noDigit : isDigit '.' = false := by decide
  obtain ⟨taken, dropped⟩ :=
    @span_append isDigit ('.' :: digits ++ rest) front areWhole (by simp [Stops, noDigit])
  obtain ⟨fractionTaken, fractionDropped⟩ := span_append areFraction stops
  rw [append_assoc, numberPart, taken, dropped]
  simp [fractionTaken, fractionDropped, notEmpty]

theorem piece_of_numberPart (isDigit : isDigit first)
    (parted : numberPart (first :: others ++ rest) = (first :: others, rest)) :
    piece (first :: others ++ rest) = .ok (.lexeme .number (first :: others), rest) := by
  rw [cons_append] at parted ⊢
  refine piece_of_lexeme? (isBlank_of_isDigit isDigit) ?_ (by simp [lexeme?, isDigit, parted])
  rintro rfl
  exact absurd isDigit (by decide)

theorem code_of_isWordStart (starts : isWordStart first) :
    (65 ≤ first.toNat ∧ first.toNat ≤ 90) ∨ (97 ≤ first.toNat ∧ first.toNat ≤ 122) ∨
      first.toNat = 95 := by
  change (decide (65 ≤ first.val ∧ first.val ≤ 90) || (97 ≤ first.val && first.val ≤ 122) ||
    first == '_') = true at starts
  simp only [Bool.or_eq_true, Bool.and_eq_true, decide_eq_true_eq, beq_iff_eq,
    UInt32.le_iff_toNat_le] at starts
  rcases starts with (upper | lower) | rfl
  · exact Or.inl upper
  · exact Or.inr (Or.inl lower)
  · exact Or.inr (Or.inr rfl)

/-- The character starts no blank, number, string or word. -/
def isSignal (character : Char) : Bool :=
  !(Text.isBlank character || Text.isDigit character || character == '"' || character == '\'' ||
    isWordStart character)

theorem isSignal_of_pairKind? (isPair : pairKind? first second = some kind) :
    isSignal first ∧ first ≠ '/' := by
  unfold pairKind? at isPair
  split at isPair <;> first | exact ⟨by decide, by decide⟩ | cases isPair

theorem isSignal_of_signKind? (isSign : signKind? first = some kind) : isSignal first := by
  unfold signKind? at isSign
  split at isSign <;> first | decide | cases isSign

theorem piece_of_sign? (isSignal : isSignal first)
    (noComment : first = '/' → ∀ next ∈ rest.head?, next ≠ '/' ∧ next ≠ '*')
    (found : sign? (first :: rest) = some (kind, lexeme, others)) :
    piece (first :: rest) = .ok (.lexeme kind lexeme, others) := by
  simp only [Token.isSignal, Bool.not_eq_true', Bool.or_eq_false_iff, beq_eq_false_iff_ne]
    at isSignal
  obtain ⟨⟨⟨⟨notBlank, notDigit⟩, notDouble⟩, notSingle⟩, notWord⟩ := isSignal
  exact piece_of_lexeme? notBlank noComment
    (by simp [lexeme?, notDigit, notDouble, notSingle, notWord, found])

theorem piece_of_isLexeme (isLexeme : IsLexeme kind lexeme rest) :
    piece (lexeme ++ rest) = .ok (.lexeme kind lexeme, rest) := by
  cases isLexeme with
  | whole notEmpty areDigits stops noFraction =>
    obtain ⟨first, others, rfl⟩ := exists_cons_of_ne_nil notEmpty
    exact piece_of_numberPart (areDigits first mem_cons_self)
      (numberPart_whole areDigits stops noFraction)
  | fraction hasWhole notEmpty areDigits stops =>
    obtain ⟨first, others, rfl⟩ := exists_cons_of_ne_nil hasWhole
    exact piece_of_numberPart (areDigits first mem_cons_self)
      (numberPart_fraction notEmpty areDigits stops)
  | @string _ _ _ isQuote closes =>
    have closed := (closeString_eq_some closes).2 rest
    rcases isQuote with rfl | rfl
    · exact piece_of_lexeme? (by decide) (absurd · (by decide))
        (by simp [lexeme?, closed, show isDigit '"' = false by decide])
    · exact piece_of_lexeme? (by decide) (absurd · (by decide))
        (by simp [lexeme?, closed, show isDigit '\'' = false by decide])
  | word isWord stops =>
    cases lexeme with
    | nil => cases isWord
    | cons first =>
      simp only [isName, Bool.and_eq_true, all_eq_true] at isWord
      have codes := code_of_isWordStart isWord.1
      have notDigit : isDigit first = false := by
        have small : first.toNat < 128 := by omega
        have outside : ¬ (48 ≤ first.toNat ∧ first.toNat ≤ 57) := by omega
        simp [isDigit, digit?, small, outside]
      have ne : ∀ other : Char, isWordStart other = false → first ≠ other := by
        rintro other stops rfl
        cases isWord.1.symm.trans stops
      obtain ⟨taken, dropped⟩ := span_append isWord.2 stops
      refine piece_of_lexeme? (isBlank_of_codes (by omega)) (absurd · (ne '/' (by decide))) ?_
      simp [lexeme?, notDigit, ne '"' (by decide), ne '\'' (by decide), isWord.1, taken, dropped]
  | pair isPair =>
    obtain ⟨isSignal, notSlash⟩ := isSignal_of_pairKind? isPair
    exact piece_of_sign? isSignal (absurd · notSlash) (by simp [sign?, isPair])
  | sign isSign isAlone noComment =>
    refine piece_of_sign? (isSignal_of_signKind? isSign) noComment ?_
    cases rest with
    | nil => simp [sign?, isSign]
    | cons next => simp [sign?, isAlone next rfl, isSign]

theorem isLexeme_of_numberPart (isDigit : Text.isDigit first) (rest : List Char) :
    first :: rest = (numberPart (first :: rest)).1 ++ (numberPart (first :: rest)).2 ∧
      IsLexeme .number (numberPart (first :: rest)).1 (numberPart (first :: rest)).2 := by
  have whole : (first :: rest).takeWhile Text.isDigit ++ (first :: rest).dropWhile Text.isDigit =
      first :: rest :=
    takeWhile_append_dropWhile
  have notEmpty : (first :: rest).takeWhile Text.isDigit ≠ [] := by simp [isDigit]
  have areDigits : ∀ digit ∈ (first :: rest).takeWhile Text.isDigit, Text.isDigit digit :=
    fun digit mem => mem_takeWhile_imp mem
  have stops := stops_dropWhile Text.isDigit (first :: rest)
  unfold numberPart
  split
  · rename_i more isRest
    rw [isRest] at whole stops
    dsimp only
    split
    · rename_i noDigits
      refine ⟨whole.symm, .whole notEmpty areDigits stops ?_⟩
      rintro _ ⟨⟩
      have stopsAgain := stops_dropWhile Text.isDigit more
      have split := @takeWhile_append_dropWhile _ Text.isDigit more
      rw [List.isEmpty_iff.mp noDigits, nil_append] at split
      rwa [split] at stopsAgain
    · rename_i hasDigits
      refine ⟨?_, .fraction notEmpty (by simpa using hasDigits) ?_ (stops_dropWhile _ _)⟩
      · rw [append_assoc, cons_append, takeWhile_append_dropWhile]
        exact whole.symm
      · exact forall_mem_append.mpr ⟨areDigits, fun digit mem => mem_takeWhile_imp mem⟩
  · rename_i noPoint
    exact ⟨whole.symm, .whole notEmpty areDigits stops fun more isRest =>
      absurd isRest (noPoint more)⟩

theorem isLexeme_of_sign?
    (noComment : ∀ next more, text = '/' :: next :: more → next ≠ '/' ∧ next ≠ '*')
    (found : sign? text = some (kind, lexeme, rest)) :
    text = lexeme ++ rest ∧ IsLexeme kind lexeme rest := by
  match text with
  | [] => cases found
  | [single] =>
    simp only [sign?, Option.map_eq_some_iff] at found
    obtain ⟨_, isSign, rfl, rfl, rfl⟩ := found
    exact ⟨rfl, .sign isSign (by simp) (by simp)⟩
  | first :: second :: others =>
    rw [sign?] at found
    split at found
    · rename_i isPair
      cases found
      exact ⟨rfl, .pair isPair⟩
    · rename_i notPair
      simp only [Option.map_eq_some_iff] at found
      obtain ⟨_, isSign, rfl, rfl, rfl⟩ := found
      refine ⟨rfl, .sign isSign ?_ ?_⟩
      · rintro _ ⟨⟩
        exact notPair
      · rintro rfl _ ⟨⟩
        exact noComment _ _ rfl

theorem isLexeme_of_lexeme?
    (noComment : ∀ next more, text = '/' :: next :: more → next ≠ '/' ∧ next ≠ '*')
    (found : lexeme? text = some (kind, lexeme, rest)) :
    text = lexeme ++ rest ∧ IsLexeme kind lexeme rest := by
  cases text with
  | nil => cases found
  | cons _ others =>
    rw [lexeme?] at found
    split at found
    · rename_i isDigit
      cases found
      exact isLexeme_of_numberPart isDigit others
    · split at found
      · rename_i isQuote
        simp only [Option.map_eq_some_iff, Prod.exists] at found
        obtain ⟨body, left, closed, rfl, rfl, rfl⟩ := found
        obtain ⟨rfl, closes⟩ := closeString_eq_some closed
        exact ⟨rfl, .string (by simpa using isQuote) (by simpa using closes [])⟩
      · split at found
        · rename_i isStart
          cases found
          refine ⟨by rw [cons_append, takeWhile_append_dropWhile], .word ?_ (stops_dropWhile _ _)⟩
          simp [isName, isStart]
        · exact isLexeme_of_sign? noComment found

/-! ## Pieces -/

/-- What the first piece of a text can be. -/
inductive IsPiece : Piece → List Char → Prop
  | gap {text rest : List Char} (isGap : IsGapPiece text rest) :
      IsPiece (.gap text) rest
  | lexeme {kind : Kind} {text rest : List Char} (isLexeme : IsLexeme kind text rest) :
      IsPiece (.lexeme kind text) rest

theorem IsLexeme.ne_nil (isLexeme : IsLexeme kind lexeme rest) : lexeme ≠ [] := by
  cases isLexeme with
  | whole notEmpty => exact notEmpty
  | word isWord =>
    rintro rfl
    cases isWord
  | _ => simp

theorem piece_eq_ok (cut : piece text = .ok (found, rest)) :
    text = found.text ++ rest ∧ found.text ≠ [] ∧ IsPiece found rest := by
  unfold piece at cut
  split at cut
  · rename_i behind
    cases cut
    refine ⟨by simp [Piece.text, takeWhile_append_dropWhile], by simp [Piece.text],
      .gap (.lineComment ?_ fun next isNext => ?_)⟩
    · intro mem
      simpa using mem_takeWhile_imp mem
    · simpa using stops_dropWhile (· ≠ '\n') behind next isNext
  · split at cut
    · rename_i behind body left closed
      cases cut
      obtain ⟨inner, rfl, rfl, closesFirst⟩ := closeComment_eq_some closed
      refine ⟨by simp [Piece.text], by simp [Piece.text], .gap ?_⟩
      exact .blockComment closesFirst
    · cases cut
  · rename_i notLine notBlock
    split at cut
    · split at cut
      · rename_i isLexeme
        cases cut
        obtain ⟨isFront, isLexeme⟩ := isLexeme_of_lexeme? (fun next more isText => by
          constructor <;> rintro rfl
          · exact notLine more isText
          · exact notBlock more isText) isLexeme
        exact ⟨isFront, isLexeme.ne_nil, .lexeme isLexeme⟩
      · cases cut
    · rename_i blank notEmpty
      cases cut
      exact ⟨takeWhile_append_dropWhile.symm, notEmpty,
        .gap (.blanks fun character mem => mem_takeWhile_imp mem)⟩

theorem length_lt_of_piece (cut : piece text = .ok (found, rest)) : rest.length < text.length := by
  obtain ⟨rfl, notEmpty, _⟩ := piece_eq_ok cut
  have := length_pos_of_ne_nil notEmpty
  rw [length_append]
  omega

/-! ## What no lexeme goes on with -/

/-- No lexeme goes on with what the text starts with. -/
def Halts (text : List Char) : Prop := ∀ next ∈ text.head?, next ∈ [' ', '\n', '(', ')']

theorem Halts.stops (halts : Halts rest) (noParts : [' ', '\n', '(', ')'].any isPart = false) :
    Stops isPart rest :=
  fun next isNext => eq_false_of_ne_true (any_eq_false.mp noParts next (halts next isNext))

/-- A lexeme is one as well if something else stands behind it, or behind what follows it. -/
theorem IsLexeme.replace (isLexeme : IsLexeme kind lexeme (front ++ rest)) (halts : Halts others) :
    IsLexeme kind lexeme (front ++ others) := by
  have noDigit : Stops isDigit others := halts.stops rfl
  have same (holds : Char → Prop) (isHead : ∀ next ∈ (front ++ rest).head?, holds next)
      (isHalt : ∀ next ∈ [' ', '\n', '(', ')'], holds next) :
      ∀ next ∈ (front ++ others).head?, holds next := by
    cases front with
    | nil => exact fun next isNext => isHalt next (halts next isNext)
    | cons => exact isHead
  cases isLexeme with
  | whole notEmpty areDigits stops noFraction =>
    refine .whole notEmpty areDigits (stops.replace noDigit) fun more isRest => ?_
    cases front with
    | nil =>
      subst isRest
      exact absurd (halts '.' rfl) (by decide)
    | cons =>
      obtain ⟨rfl, rfl⟩ := cons.inj isRest
      exact (noFraction _ rfl).replace noDigit
  | fraction hasWhole notEmpty areDigits stops =>
    exact .fraction hasWhole notEmpty areDigits (stops.replace noDigit)
  | string isQuote closes => exact .string isQuote closes
  | word isWord stops => exact .word isWord (stops.replace (halts.stops rfl))
  | pair isPair => exact .pair isPair
  | sign isSign isAlone noComment =>
    refine .sign isSign (same _ isAlone ?_) fun isSlash => same _ (noComment isSlash) (by simp)
    simp [pairKind?]

theorem IsLexeme.before (isLexeme : IsLexeme kind lexeme rest) (halts : Halts others) :
    IsLexeme kind lexeme others :=
  @IsLexeme.replace _ [] _ _ _ isLexeme halts

/-! ## Scanning -/

/-- The tokens of a text that stands in a source from a position on. -/
def scanAt (position : Position) (text : List Char) : Except ParseFault (List Token) :=
  scanFrom text.length position text

/-- More fuel than a text has characters makes no difference. -/
theorem scanFrom_eq_scanAt (enough : text.length ≤ fuel) (pos : Position) :
    scanFrom fuel pos text = scanAt pos text := by
  have alike :
      ∀ first second (pos : Position) (text : List Char),
        text.length ≤ first → text.length ≤ second →
          scanFrom first pos text = scanFrom second pos text := by
    intro first
    induction first with
    | zero =>
      intro second pos text firstEnough _
      obtain rfl := length_eq_zero_iff.mp (Nat.le_zero.mp firstEnough)
      cases second <;> rfl
    | succ first ih =>
      intro second pos text firstEnough secondEnough
      cases text with
      | nil => cases second <;> rfl
      | cons character rest =>
        rcases second with _ | second
        · cases secondEnough
        rw [scanFrom, scanFrom]
        cases cut : piece (character :: rest) with
        | error => rfl
        | ok found =>
          obtain ⟨front, left⟩ := found
          have isShorter := length_lt_of_piece cut
          have same (from_ : Position) :
              scanFrom first from_ left = scanFrom second from_ left :=
            ih second from_ left (by omega) (by omega)
          cases front with
          | gap => exact same _
          | lexeme => simp only [same]
  exact alike fuel text.length pos text enough (Nat.le_refl _)

theorem scanAt_gap (cut : piece text = .ok (.gap skipped, rest)) (pos : Position) :
    scanAt pos text = scanAt (pos.advance skipped) rest := by
  have isShorter := length_lt_of_piece cut
  cases text with
  | nil => cases isShorter
  | cons =>
    rw [scanAt, length_cons, scanFrom, cut]
    exact scanFrom_eq_scanAt (Nat.le_of_lt_succ isShorter) _

theorem scanAt_lexeme (isLexeme : IsLexeme kind lexeme rest) (pos : Position) :
    scanAt pos (lexeme ++ rest) =
      (scanAt (pos.advance lexeme) rest).map (⟨kind, String.ofList lexeme, pos⟩ :: ·) := by
  have cut := piece_of_isLexeme isLexeme
  have isShorter := length_lt_of_piece cut
  cases isText : lexeme ++ rest with
  | nil =>
    rw [isText] at isShorter
    cases isShorter
  | cons =>
    rw [isText] at cut isShorter
    rw [scanAt, length_cons, scanFrom, cut]
    simp only [scanFrom_eq_scanAt (Nat.le_of_lt_succ isShorter)]
    cases scanAt (pos.advance lexeme) rest <;> rfl

theorem piece_of_isBlank (isBlank : Text.isBlank first) (rest : List Char) :
    piece (first :: rest) =
      .ok (.gap (first :: rest.takeWhile Text.isBlank), rest.dropWhile Text.isBlank) := by
  have notSlash : first ≠ '/' := by
    rintro rfl
    exact absurd isBlank (by decide)
  rw [piece]
  · simp [isBlank]
  · simp [notSlash]
  · simp [notSlash]

/-- A blank in front of a text only moves the position, whether or not the text starts with one. -/
theorem scanAt_blank (isBlank : Text.isBlank first) (pos : Position) (rest : List Char) :
    scanAt pos (first :: rest) = scanAt (pos.next first) rest := by
  rw [scanAt_gap (piece_of_isBlank isBlank rest)]
  cases rest with
  | nil => rfl
  | cons next others =>
    by_cases nextIsBlank : Text.isBlank next
    · -- The blanks behind the first one are the first piece of the rest.
      rw [scanAt_gap (piece_of_isBlank nextIsBlank others), takeWhile_cons_of_pos nextIsBlank,
        dropWhile_cons_of_pos nextIsBlank]
      rfl
    · simp [nextIsBlank, Position.advance]

theorem scanAt_of_isGapPiece (isGap : IsGapPiece text rest) (pos : Position) :
    scanAt pos (text ++ rest) = scanAt (pos.advance text) rest := by
  cases isGap with
  | blanks areBlank =>
    induction text generalizing pos with
    | nil => rfl
    | cons _ _ ih =>
      obtain ⟨isBlank, othersBlank⟩ := forall_mem_cons.mp areBlank
      rw [cons_append, scanAt_blank isBlank, ih _ othersBlank]
      rfl
  | @lineComment body _ oneLine toLineEnd =>
    refine scanAt_gap ?_ pos
    obtain ⟨taken, dropped⟩ := @span_append (· ≠ '\n') rest body
      (fun character mem => by
        simp only [decide_eq_true_eq]
        rintro rfl
        exact oneLine mem)
      (fun next isNext => by simp [toLineEnd next isNext])
    rw [cons_append, cons_append, piece, taken, dropped]
  | @blockComment _ _ closesFirst =>
    refine scanAt_gap ?_ pos
    have closed := closeComment_of_closesFirst closesFirst rest
    simp [piece, closed]

/-- A text that starts at a position is cut into pieces with the given tokens among them. -/
inductive Cuts : Position → List Char → List Token → Prop
  | finish (position : Position) : Cuts position [] [⟨.finish, "", position⟩]
  | gap {position : Position} {skipped rest : List Char} {tokens : List Token}
      (isGap : IsGapPiece skipped rest) (others : Cuts (position.advance skipped) rest tokens) :
      Cuts position (skipped ++ rest) tokens
  | lexeme {position : Position} {kind : Kind} {lexeme rest : List Char} {tokens : List Token}
      (isLexeme : IsLexeme kind lexeme rest) (others : Cuts (position.advance lexeme) rest tokens) :
      Cuts position (lexeme ++ rest) (⟨kind, String.ofList lexeme, position⟩ :: tokens)

theorem cuts_of_scanFrom (scanned : scanFrom fuel pos text = .ok tokens) :
    Cuts pos text tokens := by
  fun_induction scanFrom fuel pos text generalizing tokens with
  | case1 _ pos =>
    cases scanned
    exact .finish pos
  | case2 | case3 | case5 => cases scanned
  | case4 _ _ _ _ _ _ cut ih =>
    obtain ⟨isFront, _, isPiece⟩ := piece_eq_ok cut
    cases isPiece with
    | gap isGap =>
      rw [isFront]
      exact .gap isGap (ih scanned)
  | case6 _ _ _ _ _ lexeme _ cut _ moreScanned ih =>
    obtain ⟨isFront, _, isPiece⟩ := piece_eq_ok cut
    cases isPiece with
    | lexeme isLexeme =>
      cases scanned
      rw [isFront]
      exact .lexeme isLexeme (ih moreScanned)

/-- A text is scanned into tokens exactly if it is cut into pieces with these tokens among them. -/
theorem scanAt_eq_ok_iff : scanAt pos text = .ok tokens ↔ Cuts pos text tokens := by
  refine ⟨cuts_of_scanFrom, fun cuts => ?_⟩
  induction cuts with
  | finish => rfl
  | gap isGap _ ih => rw [scanAt_of_isGapPiece isGap, ih]
  | lexeme isLexeme _ ih =>
    rw [scanAt_lexeme isLexeme, ih]
    rfl

theorem cuts_of_scan (scanned : scan source = .ok tokens) : Cuts .start source tokens :=
  cuts_of_scanFrom scanned

/-! ## What is scanned -/

/-- A kind whose tokens are all spelled the same way is spelled by the lexeme. -/
def Kind.Spells (kind : Kind) (lexeme : List Char) : Prop :=
  match kind with
  | .defaultWord => lexeme = "default".toList
  | .nullWord => lexeme = "null".toList
  | .finish => False
  | _ => True

/-- The token is one that a scan makes: words are words, and placeholders are one or two signs. -/
structure IsScanned (token : Token) : Prop where
  word : token.kind = .word → isName token.lexeme.toList = true
  dollar : token.kind = .dollar → token.lexeme.length = 1 ∨ token.lexeme.length = 2

/-- A lexeme is spelled as its kind is, and makes a token. -/
theorem IsLexeme.isScanned (isLexeme : IsLexeme kind lexeme rest) (pos : Position) :
    kind.Spells lexeme ∧ IsScanned ⟨kind, String.ofList lexeme, pos⟩ := by
  cases isLexeme with
  | whole | fraction | string => exact ⟨trivial, nofun, nofun⟩
  | word isWord =>
    refine ⟨?_, fun _ => by simpa using isWord, fun isDollar => ?_⟩
    · unfold wordKind
      split_ifs <;> trivial
    · revert isDollar
      simp only [wordKind]
      split_ifs <;> nofun
  | pair isPair =>
    refine ⟨?_, ?_, fun _ => .inr (by simp)⟩ <;> unfold pairKind? at isPair <;>
      split at isPair <;> cases isPair <;> first | trivial | nofun
  | sign isSign =>
    refine ⟨?_, ?_, fun _ => .inl (by simp)⟩ <;> unfold signKind? at isSign <;>
      split at isSign <;> cases isSign <;> first | trivial | nofun

namespace Cuts

theorem isScanned (cuts : Cuts pos text tokens) : ∀ token ∈ tokens, token.IsScanned := by
  induction cuts with
  | finish => simpa using ⟨nofun, nofun⟩
  | gap _ _ ih => exact ih
  | lexeme isLexeme _ ih => exact forall_mem_cons.mpr ⟨(isLexeme.isScanned _).2, ih⟩

/-- The last token marks the end, and no other does. -/
theorem exists_ending (cuts : Cuts pos text tokens) :
    ∃ front ending, tokens = front ++ [ending] ∧ ending.kind = .finish ∧
      ∀ token ∈ front, token.kind ≠ .finish := by
  induction cuts with
  | finish => exact ⟨[], _, rfl, rfl, by simp⟩
  | gap _ _ ih => exact ih
  | @lexeme pos _ _ _ _ isLexeme _ ih =>
    obtain ⟨front, ending, rfl, isEnd, noEnds⟩ := ih
    refine ⟨_ :: front, ending, rfl, isEnd, forall_mem_cons.mpr ⟨?_, noEnds⟩⟩
    rintro rfl
    exact (isLexeme.isScanned pos).1

theorem lexeme_isInfix (cuts : Cuts pos text tokens) :
    ∀ token ∈ tokens, token.lexeme.toList <:+: text := by
  induction cuts with
  | finish => simp
  | @gap _ skipped rest _ _ _ ih =>
    exact fun token mem =>
      (ih token mem).trans (suffix_append skipped rest).isInfix
  | @lexeme _ _ lexeme rest _ _ _ ih =>
    intro token mem
    rcases mem_cons.mp mem with rfl | inOthers
    · rw [String.toList_ofList]
      exact (prefix_append lexeme rest).isInfix
    · exact (ih token inOthers).trans (suffix_append lexeme rest).isInfix

theorem append_lineFeed (cuts : Cuts pos text tokens) : ∃ front ending other,
      tokens = front ++ [ending] ∧ other.kind = .finish ∧
        Cuts pos (text ++ ['\n']) (front ++ [other]) := by
  induction cuts with
  | finish pos =>
    exact ⟨[], _, _, rfl, rfl, @gap pos ['\n'] [] _ (.blanks (by simp [isBlank])) (.finish _)⟩
  | @gap _ _ rest _ isGap _ ih =>
    obtain ⟨front, ending, other, rfl, isEnd, cuts⟩ := ih
    refine ⟨front, ending, other, rfl, isEnd, ?_⟩
    rw [append_assoc]
    refine .gap ?_ cuts
    cases isGap with
    | blanks areBlank => exact .blanks areBlank
    | blockComment closesFirst => exact .blockComment closesFirst
    | lineComment oneLine toLineEnd =>
      refine .lineComment oneLine ?_
      cases rest with
      | nil => simp
      | cons => exact toLineEnd
  | @lexeme _ kind lexeme rest _ _ _ ih =>
    obtain ⟨front, ending, other, rfl, isEnd, cuts⟩ := ih
    refine ⟨_ :: front, ending, other, rfl, isEnd, ?_⟩
    have atEnd : IsLexeme kind lexeme (rest ++ []) := by rwa [append_nil]
    rw [append_assoc]
    exact .lexeme (atEnd.replace (by simp [Halts])) cuts

end Cuts

/-- A fuel for every character is enough, because every piece has one. -/
theorem scanFrom_ne_exhausted (enough : text.length ≤ fuel) :
    scanFrom fuel pos text ≠ .error .exhausted := by
  fun_induction scanFrom fuel pos text with
  | case1 => nofun
  | case2 => simp at enough
  | case3 _ _ _ _ refusal => cases refusal <;> nofun
  | case4 _ _ _ _ _ _ cut ih =>
    have shorter := length_lt_of_piece cut
    exact ih (by omega)
  | case5 _ _ _ _ _ _ _ cut _ notScanned ih =>
    have shorter := length_lt_of_piece cut
    rw [← notScanned]
    exact ih (by omega)
  | case6 => nofun

end Token

end Weave
