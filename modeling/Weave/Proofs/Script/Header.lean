import Weave.Proofs.Reader
import Weave.Proofs.Text.Lines
import Weave.Script.Parser

namespace Weave

open List Text

/-!
# Headers line by line

A header is read line by line.  Between two lines only this matters: whether a comment is open, and
what the lines so far have said.  So blanks around a header change nothing, and a comment hides what
stands behind it on its line.
-/

variable {lines front back : List (List Char)} {line text : List Char} {said : Header.Line}
  {draft last : Header.Draft} {isOpen : Bool} {blank : Char} {header : Header}

namespace Header

/-- Where a line stands matters for a fault only. -/
theorem Line.read_anywhere (isRead : Line.read line number = .ok said) (place : Nat) :
    Line.read line place = .ok said := by
  revert isRead
  unfold Line.read versionOf VariableDecl.read FunctionDecl.read
  dsimp only
  repeat' split
  all_goals first | exact id | rintro ⟨⟩

/-- Read one more line: whether a comment is open behind it, and what has been said. -/
def step (state : Bool × Draft) (line : List Char) : Except ParseFault (Bool × Draft) :=
  if state.1 then .ok (!Text.contains line ['*', '/'], state.2)
  else do
    let said ← Line.read (Text.trim line) 0
    return (said matches .openComment, state.2.add said)

/-- Read lines one after the other. -/
def run (state : Bool × Draft) (lines : List (List Char)) : Except ParseFault (Bool × Draft) :=
  lines.foldlM step state

theorem run_cons (state : Bool × Draft) (line : List Char) (lines : List (List Char)) :
    run state (line :: lines) = step state line >>= (run · lines) :=
  rfl

theorem run_eq_ok_iff : (∃ isOpenBehind, run (isOpen, draft) lines = .ok (isOpenBehind, last)) ↔
      ∃ said, readLines isOpen number lines = .ok said ∧ said.foldl Draft.add draft = last := by
  induction lines generalizing isOpen draft number with
  | nil => simp [run, readLines, pure, Except.pure]
  | cons _ _ ih =>
    rw [run_cons, step]
    cases isOpen with
    | true => exact ih
    | false =>
      simp only [Bool.false_eq_true, if_false, readLines, bind_assoc, pure_bind, except_bind_eq_ok]
      constructor
      · rintro ⟨isOpen, said, isRead, areRead⟩
        obtain ⟨others, othersRead, isLast⟩ := (@ih _ _ (number + 1)).mp ⟨isOpen, areRead⟩
        exact ⟨said :: others, ⟨said, Line.read_anywhere isRead number, others, othersRead, rfl⟩,
          isLast⟩
      · rintro ⟨_, ⟨said, isRead, others, othersRead, ⟨⟩⟩, isLast⟩
        obtain ⟨isOpen, areRead⟩ := ih.mpr ⟨others, othersRead, isLast⟩
        exact ⟨isOpen, said, Line.read_anywhere isRead 0, areRead⟩

/-- The header that the lines make up when they are read from a state on. -/
def Makes (state : Bool × Draft) (lines : List (List Char)) (header : Header) : Prop :=
  ∃ isOpen draft, run state lines = .ok (isOpen, draft) ∧
    draft.version.map (fun version => { draft.header with version := version }) = some header

/-- Nothing has been said. -/
def start : Bool × Draft := (false, ⟨none, plain⟩)

theorem parse_eq_ok_iff : parse source = .ok header ↔ Makes start (Text.lines source) header := by
  rw [parse, except_bind_eq_ok]
  dsimp only
  constructor
  · rintro ⟨said, areRead, isHeader⟩
    obtain ⟨isOpen, isRun⟩ := run_eq_ok_iff.mpr ⟨said, areRead, rfl⟩
    refine ⟨isOpen, _, isRun, ?_⟩
    split at isHeader
    · rename_i isVersion
      rw [isVersion]
      exact congrArg some (Except.ok.inj isHeader)
    · cases isHeader
  · rintro ⟨isOpen, draft, isRun, isHeader⟩
    obtain ⟨said, areRead, rfl⟩ := run_eq_ok_iff.mp ⟨isOpen, isRun⟩
    obtain ⟨version, isVersion, isSame⟩ := Option.map_eq_some_iff.mp isHeader
    exact ⟨said, areRead, by rw [isVersion, ← isSame]; rfl⟩

/-! ## Blanks -/

theorem contains_append_cons_blank (isBlank : Text.isBlank blank) (front back : List Char) :
    Text.contains (front ++ blank :: back) ['*', '/'] =
      (Text.contains front ['*', '/'] || Text.contains back ['*', '/']) := by
  have notMember : blank ∉ ['*', '/'] := by
    simp only [mem_cons, not_mem_nil, or_false]
    rintro (rfl | rfl) <;> cases isBlank
  have found (text : List Char) : Text.contains text ['*', '/'] ↔ ['*', '/'] <:+: text := by
    rw [← not_iff_not, ← Text.cutAt?_eq_none_iff (by simp)]
    simp [Text.contains]
  rw [Bool.eq_iff_iff, Bool.or_eq_true, found, found, found, Text.isInfix_append_cons_iff notMember]

/-- A blank at the start of a line changes nothing. -/
theorem step_blank_cons (isBlank : isBlank blank) (state : Bool × Draft)
    (line : List Char) :
    step state (blank :: line) = step state line := by
  have sameMark := contains_append_cons_blank isBlank [] line
  rw [nil_append] at sameMark
  simp only [step, trim_cons_of_isBlank isBlank, sameMark]
  rfl

theorem step_append_blank (isBlank : Text.isBlank blank) (state : Bool × Draft)
    (line : List Char) :
    step state (line ++ [blank]) = step state line := by
  have noMark : Text.contains [] ['*', '/'] = false := rfl
  simp only [step, Text.trim_append_of_isBlank isBlank, contains_append_cons_blank isBlank, noMark,
    Bool.or_false]

theorem step_nil (state : Bool × Draft) : step state [] = .ok state := by
  obtain ⟨isOpen, draft⟩ := state
  cases isOpen <;> rfl

theorem run_linesFrom_blank (isBlank : isBlank blank) (state : Bool × Draft)
    (passed text : List Char) :
    run state (linesFrom (passed ++ [blank]) text) = run state (linesFrom passed text) := by
  fun_induction linesFrom passed text with
  | case1 => simp [linesFrom, run_cons, step_blank_cons isBlank, step_nil]; rfl
  | case2 => simp [linesFrom, run_cons, step_blank_cons isBlank]
  | case3 => simp [linesFrom, run_cons, step_blank_cons isBlank]
  | case4 _ _ _ noPair isEnd =>
    simp [linesFrom_cons_of_isLineEnd isEnd noPair, run_cons, step_blank_cons isBlank]
  | case5 _ _ _ _ isEnd =>
    rwa [linesFrom_cons_of_isLine (by simpa using isEnd)]

theorem run_lines_cons (isBlank : Text.isBlank blank) (state : Bool × Draft)
    (text : List Char) :
    run state (Text.lines (blank :: text)) = run state (Text.lines text) := by
  unfold Text.lines
  cases isEnd : Text.isLineEnd blank with
  | false =>
    rw [Text.linesFrom_cons_of_isLine isEnd]
    exact run_linesFrom_blank isBlank state [] text
  | true =>
    by_cases isPair : ∃ more, blank = '\r' ∧ text = '\n' :: more
    · obtain ⟨more, rfl, rfl⟩ := isPair
      have isFeed : Text.isLineEnd '\n' := by decide
      simp [Text.linesFrom, Text.linesFrom_cons_of_isLineEnd isFeed]
    · rw [Text.linesFrom_cons_of_isLineEnd isEnd (by simp_all), run_cons, reverse_nil, step_nil]
      rfl

theorem run_linesFrom_append (isBlank : isBlank blank) (state : Bool × Draft)
    (passed text : List Char) :
    run state (linesFrom passed (text ++ [blank])) = run state (linesFrom passed text) := by
  have atEnd (passed : List Char) :
      linesFrom passed [blank] = [passed.reverse] ∨
        linesFrom passed [blank] = [passed.reverse ++ [blank]] := by
    cases isEnd : isLineEnd blank with
    | true => simp [linesFrom_cons_of_isLineEnd isEnd, linesFrom]
    | false => simp [linesFrom_cons_of_isLine isEnd, linesFrom]
  fun_induction linesFrom passed text generalizing state with
  | case1 =>
    rcases atEnd [] with isLine | isLine <;>
      simp [isLine, run_cons, step_blank_cons isBlank, step_nil] <;> rfl
  | case2 passed =>
    rcases atEnd passed with isLine | isLine <;> simp [isLine, run_cons, step_append_blank isBlank]
  | case3 _ _ ih => simp [linesFrom, run_cons, ih]
  | case4 _ char rest _ isEnd ih =>
    by_cases isPair : char = '\r' ∧ rest = [] ∧ blank = '\n'
    · obtain ⟨rfl, rfl, rfl⟩ := isPair
      simp [linesFrom]
    · rw [cons_append, linesFrom_cons_of_isLineEnd isEnd]
      · simp [run_cons, ih]
      · cases rest <;> simp_all
  | case5 _ _ _ _ isEnd ih =>
    rw [cons_append, linesFrom_cons_of_isLine (by simpa using isEnd), ih]

/-- Blanks around a header change nothing. -/
theorem parse_trim : parse (Text.trim source) = .ok header ↔ parse source = .ok header := by
  have same : run start (Text.lines (Text.trim source)) = run start (Text.lines source) := by
    refine @Text.of_trim source (fun text => run start (Text.lines text) = _) ?_ ?_ rfl
    · intro blank text isBlank same
      rw [← same]
      exact (run_lines_cons isBlank start text).symm
    · intro text blank isBlank same
      rw [← same]
      exact (run_linesFrom_append isBlank start [] text).symm
  rw [parse_eq_ok_iff, parse_eq_ok_iff, Makes, Makes, same]

/-! ## Comments -/

theorem makes_append {state middle : Bool × Draft} (isRun : run state front = .ok middle) :
    Makes state (front ++ back) header ↔ Makes middle back header := by
  simp only [Makes, run, foldlM_append] at isRun ⊢
  rw [isRun]
  rfl

theorem makes_cons {state next : Bool × Draft} (isStep : step state line = .ok next) :
    Makes state (line :: back) header ↔ Makes next back header :=
  @makes_append [line] back header state next (by rw [run_cons, isStep]; rfl)

/-- What an open comment leaves of the lines behind it. -/
def shown (lines : List (List Char)) : List (List Char) :=
  (lines.dropWhile fun line => !Text.contains line ['*', '/']).drop 1

theorem makes_open :
    Makes (true, draft) lines header ↔ Makes (false, draft) (shown lines) header := by
  induction lines with
  | nil => simp [Makes, run, shown, pure, Except.pure]
  | cons line _ ih =>
    have isStep : step (true, draft) line = .ok (!contains line ['*', '/'], draft) := rfl
    rw [makes_cons isStep]
    cases isClosed : contains line ['*', '/'] <;> simp [shown, isClosed, ih]

/-- A line that starts with a comment. -/
def commented (text behind : List Char) : List Char := '/' :: '*' :: text ++ '*' :: '/' :: behind

theorem trim_commented (text behind : List Char) :
    trim (commented text behind) = commented text (dropEndWhile isBlank behind) := by
  have trimmed := @Text.trim_append_cons '/' (by decide) ('/' :: '*' :: text ++ ['*']) behind
  rw [append_assoc] at trimmed
  exact trimmed.trans (append_assoc ('/' :: '*' :: text) ['*'] _)

/-- Behind a comment on a line, another one is open unless the line ends with the mark that closes
it. -/
theorem step_commented (text behind : List Char) : step (false, draft) (commented text behind) =
      .ok (!endsWith (trim (commented text behind)) ['*', '/'], draft) := by
  have isComment : startsWith (trim (commented text behind)) ['/', '*'] := by
    rw [trim_commented]
    rfl
  simp only [step, Line.read, isComment]
  cases endsWith (trim (commented text behind)) ['*', '/'] <;> rfl

theorem endsWith_commented (areBlank : ∀ blank ∈ line, isBlank blank)
    (text : List Char) :
    endsWith (trim (commented text line)) ['*', '/'] := by
  have isWhole : commented text line = commented text [] ++ line := by simp [commented]
  rw [isWhole, trim_append_of_areBlank areBlank, trim_commented]
  simp [commented, dropEndWhile, endsWith, startsWith, after?]

theorem step_of_areBlank (areBlank : ∀ blank ∈ line, isBlank blank)
    (state : Bool × Draft) :
    step state line = .ok state := by
  induction line with
  | nil => exact step_nil state
  | cons _ _ ih =>
    rw [forall_mem_cons] at areBlank
    rw [step_blank_cons areBlank.1, ih areBlank.2]

/-- Where no comment is open, a comment changes nothing on a line of its own or in front of a blank
line.  In front of anything else it hides the line, and unless this line closes a comment at its
end, all lines up to the next one that closes a comment. -/
theorem comments_in_headers {source other text behind : List Char}
    (closed : ∃ draft, run start front = .ok (false, draft))
    (isOther : Text.lines other = front ++ commented text behind :: back) :
    ((∀ blank ∈ behind, Text.isBlank blank = true) →
      (Text.lines source = front ++ back ∨ Text.lines source = front ++ behind :: back) →
        (parse source = .ok header ↔ parse other = .ok header)) ∧
    (Text.lines source =
        front ++
          (if Text.endsWith (Text.trim (commented text behind)) ['*', '/'] then back
          else shown back) →
      (parse source = .ok header ↔ parse other = .ok header)) := by
  obtain ⟨draft, isRun⟩ := closed
  rw [parse_eq_ok_iff, parse_eq_ok_iff, isOther, makes_append isRun,
    makes_cons (step_commented text behind)]
  constructor
  · intro areBlank isSource
    rw [endsWith_commented areBlank]
    rcases isSource with isSource | isSource
    · rw [isSource, makes_append isRun]
      rfl
    · rw [isSource, makes_append isRun, makes_cons (step_of_areBlank areBlank _)]
      rfl
  · intro isSource
    rw [isSource, makes_append isRun]
    cases Text.endsWith (Text.trim (commented text behind)) ['*', '/'] with
    | true => rfl
    | false => exact makes_open.symm

/-- A comment hides two variables: the one behind it and the one on the next line. -/
theorem comments_in_headers_hidden :
    Header.parse "%dw 2.0\n/* c */ var x = 1\nvar y = 2".toList = .ok Header.plain := by
  have isOther : Text.lines "%dw 2.0\n/* c */ var x = 1\nvar y = 2".toList =
      ["%dw 2.0".toList] ++ commented " c ".toList " var x = 1".toList :: ["var y = 2".toList] := by
    decide
  exact ((@comments_in_headers _ _ _ "%dw 2.0".toList _ _ _ ⟨_, rfl⟩ isOther).2 (by decide)).mp rfl

end Header

end Weave
