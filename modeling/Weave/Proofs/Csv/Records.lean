import Mathlib.Data.List.Forall2
import Weave.Csv.Reader
import Weave.Csv.Writer

namespace Weave.Csv

open List

/-!
# Written records are read back

A record is written on a line with the default signs: commas, double quotes, line feeds.  It is
read back unless a field is longer than the limit, or holds a carriage return and stands without
quotes, which is the case if it holds none of the three signs.  A record with such a field cannot
be read, or its last field is cut off at the carriage return.
-/

variable {place : Place} {character : Char} {cell : String} {cells : List String}
  {records : List (List String)} {chars : List Char}

/-- The signs of a table by default. -/
def Signs.standard : Signs := ⟨',', '"'⟩

/-- How a table is written by default. -/
def Layout.standard : Layout := ⟨',', some '"', ['\n']⟩

/-! ## Reading character by character -/

/-- The records that characters complete, and the record that is being read behind them. -/
def consume : Draft → List Char → Except Defect (List (List String) × Draft)
  | draft, [] => .ok ([], draft)
  | draft, character :: rest => do
    let read ← draft.read .standard character
    if character = '\n' then
      let ended := read.endLine
      if ended.place = .startOfRecord then
        let (records, last) ← consume .empty rest
        return (ended.record :: records, last)
      else
        consume ended rest
    else
      consume read rest

/-- The records of a text; quotes that are not closed reach to the end. -/
def completed : List (List String) × Draft → List (List String)
  | (records, last) =>
    records ++ if last.place == .inQuotes then [(last.close .startOfRecord).record] else []

/-- The text is empty or ends with a line feed. -/
def EndsLine (text : List Char) : Prop := ∀ last, text.getLast? = some last → last = '\n'

theorem EndsLine.tail (ends : EndsLine (character :: rest)) : EndsLine rest := by
  intro last isLast
  apply ends
  rw [getLast?_cons, isLast]
  rfl

theorem recordsFrom_linesFrom (ends : EndsLine text) (draft : Draft) (line : List Char)
    (whole : text = [] → line = []) :
    recordsFrom .standard draft (linesFrom line text) =
      (do
        let read ← line.reverse.foldlM (Draft.read .standard) draft
        completed <$> consume read text) := by
  induction text generalizing draft line with
  | nil =>
    rw [whole rfl]
    rfl
  | cons character rest ih =>
    by_cases isEnd : character = '\n'
    · subst isEnd
      have next :
          ∀ draft, recordsFrom .standard draft (linesFrom [] rest) =
            completed <$> consume draft rest :=
        fun draft => ih ends.tail draft [] (fun _ => rfl)
      have cut : linesFrom line ('\n' :: rest) = (line.reverse ++ ['\n']) :: linesFrom [] rest := by
        simp [linesFrom]
      rw [cut, recordsFrom, foldlM_append]
      cases line.reverse.foldlM (Draft.read .standard) draft with
      | error => rfl
      | ok read =>
        simp only [consume, foldlM_cons, foldlM_nil, bind, Except.bind, pure,
          Except.pure, next, if_true]
        cases read.read .standard '\n' with
        | error => rfl
        | ok closed =>
          by_cases isStart : closed.endLine.place = .startOfRecord
          · simp only [isStart]
            cases consume .empty rest <;> rfl
          · have notStart : (closed.endLine.place == .startOfRecord) = false := by
              simpa using isStart
            simp only [isStart, notStart, Bool.false_eq_true, if_false]
    · have more : rest = [] → character :: line = [] := by
        rintro rfl
        exact absurd (ends character rfl) isEnd
      have next := ih ends.tail draft (character :: line) more
      have goesOn : linesFrom line (character :: rest) = linesFrom (character :: line) rest := by
        simp [linesFrom, isEnd]
      rw [goesOn, next, reverse_cons, foldlM_append]
      cases line.reverse.foldlM (Draft.read .standard) draft with
      | error => rfl
      | ok read =>
        simp only [consume, isEnd, if_false, foldlM_cons, foldlM_nil, bind, Except.bind,
          pure, Except.pure]
        cases read.read .standard character <;> rfl

/-- A text that ends its last line is read character by character. -/
theorem read_eq_consume (ends : EndsLine text) :
    read .standard text = completed <$> consume .empty text := by
  rw [read, recordsFrom_linesFrom ends .empty [] (fun _ => rfl)]
  rfl

/-! ## Steps inside a record -/

variable {rest : List Char} {fields : List String}

theorem consume_of_read {draft next : Draft} (step : draft.read .standard character = .ok next)
    (inside : character ≠ '\n' ∨ next.place = .inQuotes) :
    consume draft (character :: rest) = consume next rest := by
  rw [consume, step]
  simp only [bind, Except.bind]
  by_cases isEnd : character = '\n'
  · have quoted := inside.resolve_left (fun differs => differs isEnd)
    have same : next.endLine = next := by
      simp [Draft.endLine, quoted]
    simp [isEnd, same, quoted]
  · simp [isEnd]

theorem consume_add {draft : Draft}
    (grows : draft.read .standard character = draft.add character place)
    (inside : character ≠ '\n' ∨ place = .inQuotes) :
    consume draft (character :: rest) =
      if draft.length < fieldLimit then
        consume ⟨place, character :: draft.field, draft.length + 1, draft.fields⟩ rest
      else .error .badTable := by
  by_cases room : draft.length < fieldLimit
  · have step :
        draft.read .standard character =
          .ok ⟨place, character :: draft.field, draft.length + 1, draft.fields⟩ := by
      rw [grows, Draft.add, if_neg (by omega)]
    rw [if_pos room, consume_of_read step inside]
  · have refused : draft.read .standard character = .error .badTable := by
      rw [grows, Draft.add, if_pos (by omega)]
    rw [if_neg room, consume, refused]
    rfl

/-- The field being read is at its end: a separator or a line feed closes it. -/
def Place.CanClose (place : Place) : Prop :=
  place = .startOfField ∨ place = .inField ∨ place = .behindQuote

theorem consume_separator (canClose : place = .startOfRecord ∨ place.CanClose) (field : List Char)
    (length : Nat) :
    consume ⟨place, field, length, fields⟩ (',' :: rest) =
      consume ⟨.startOfField, [], 0, String.ofList field.reverse :: fields⟩ rest := by
  apply consume_of_read
  · rcases canClose with rfl | rfl | rfl | rfl <;> rfl
  · exact .inl (by decide)

theorem consume_lineFeed (canClose : place.CanClose) (field : List Char) (length : Nat) :
    consume ⟨place, field, length, fields⟩ ('\n' :: rest) =
      (do
        let (records, last) ← consume .empty rest
        return ((String.ofList field.reverse :: fields).reverse :: records, last)) := by
  rcases canClose with rfl | rfl | rfl <;> rfl

/-! ## Fields -/

/-- The character stands for itself outside quotes. -/
def IsPlain (character : Char) : Prop :=
  character ≠ ',' ∧ character ≠ '"' ∧ character ≠ '\n' ∧ character ≠ '\r'

theorem IsPlain.not_endsLine (plain : IsPlain character) : Draft.endsLine character = false := by
  obtain ⟨_, _, notFeed, notReturn⟩ := plain
  simp [Draft.endsLine, notFeed, notReturn]

theorem IsPlain.not_sign (plain : IsPlain character) :
    (character == Signs.standard.separator) = false ∧ (character == Signs.standard.quote) = false :=
  ⟨beq_eq_false_iff_ne.mpr plain.1, beq_eq_false_iff_ne.mpr plain.2.1⟩

/-- Characters that each add themselves to the field are added up to the limit. -/
theorem consume_added {code : Char → List Char} (adds : ∀ character ∈ chars, ∀ field length rest,
        consume ⟨place, field, length, fields⟩ (code character ++ rest) =
          if length < fieldLimit then consume ⟨place, character :: field, length + 1, fields⟩ rest
          else .error .badTable)
    (field : List Char) {length : Nat} (within : length ≤ fieldLimit) :
    consume ⟨place, field, length, fields⟩ (chars.flatMap code ++ rest) =
      if length + chars.length ≤ fieldLimit then
        consume ⟨place, chars.reverse ++ field, length + chars.length, fields⟩ rest
      else .error .badTable := by
  induction chars generalizing field length with
  | nil => simp [within]
  | cons character _ ih =>
    rw [flatMap_cons, append_assoc, adds character mem_cons_self, length_cons]
    by_cases room : length < fieldLimit
    · have further := ih (forall_mem_cons.mp adds).2 (character :: field) room
      rw [if_pos room, further, reverse_cons, append_assoc, singleton_append,
        Nat.succ_add_eq_add_succ]
    · rw [if_neg room, if_neg (by omega)]

theorem consume_plain (starts : place = .startOfRecord ∨ place = .startOfField)
    (plain : ∀ character ∈ chars, IsPlain character) (notEmpty : chars ≠ []) :
    consume ⟨place, [], 0, fields⟩ (chars ++ rest) =
      if chars.length ≤ fieldLimit then
        consume ⟨.inField, chars.reverse, chars.length, fields⟩ rest
      else .error .badTable := by
  obtain ⟨first, others, rfl⟩ := exists_cons_of_ne_nil notEmpty
  have isPlain := plain first mem_cons_self
  have step :
      Draft.read .standard ⟨place, [], 0, fields⟩ first = .ok ⟨.inField, [first], 1, fields⟩ := by
    have room : ¬ fieldLimit ≤ 0 := by decide
    rcases starts with rfl | rfl <;>
      simp [Draft.read, Draft.startField, isPlain.not_endsLine, isPlain.not_sign, Draft.add, room]
  have adds :
      ∀ character ∈ others, ∀ field length rest,
        consume ⟨.inField, field, length, fields⟩ ([character] ++ rest) =
          if length < fieldLimit then
            consume ⟨.inField, character :: field, length + 1, fields⟩ rest
          else .error .badTable := by
    intro character mem field length rest
    have isPlain := plain character (.tail _ mem)
    have grows :
        Draft.read .standard ⟨.inField, field, length, fields⟩ character =
          Draft.add ⟨.inField, field, length, fields⟩ character .inField := by
      simp [Draft.read, isPlain.not_endsLine, isPlain.not_sign]
    exact consume_add grows (.inl isPlain.2.2.1)
  have further :
      consume ⟨.inField, [first], 1, fields⟩ ((others.flatMap fun other => [other]) ++ rest) = _ :=
    consume_added adds [first] (by decide)
  rw [flatMap_singleton'] at further
  rw [cons_append, consume_of_read step (.inl isPlain.2.2.1), further]
  simp [Nat.add_comm]

/-- A character as it stands between quotes. -/
def doubled (character : Char) : List Char :=
  if character == '"' then ['"', '"'] else [character]

/-- A character between quotes is added as it is, a doubled quote once. -/
theorem consume_doubled (character : Char) (field : List Char) (length : Nat) (rest : List Char) :
    consume ⟨.inQuotes, field, length, fields⟩ (doubled character ++ rest) =
      if length < fieldLimit then consume ⟨.inQuotes, character :: field, length + 1, fields⟩ rest
      else .error .badTable := by
  by_cases isQuote : character = '"'
  · subst isQuote
    have closed :
        Draft.read .standard ⟨.behindQuote, field, length, fields⟩ '"' =
          Draft.add ⟨.behindQuote, field, length, fields⟩ '"' .inQuotes :=
      rfl
    exact consume_add closed (.inl (by decide))
  · have step :
        Draft.read .standard ⟨.inQuotes, field, length, fields⟩ character =
          Draft.add ⟨.inQuotes, field, length, fields⟩ character .inQuotes := by
      simp [Draft.read, Signs.standard, isQuote]
    have shape : doubled character ++ rest = character :: rest := by
      simp [doubled, isQuote]
    rw [shape]
    exact consume_add step (.inr rfl)

theorem consume_quoted (starts : place = .startOfRecord ∨ place = .startOfField)
    (chars : List Char) :
    consume ⟨place, [], 0, fields⟩ (quoted '"' chars ++ rest) =
      if chars.length ≤ fieldLimit then
        consume ⟨.behindQuote, chars.reverse, chars.length, fields⟩ rest
      else .error .badTable := by
  have opened :
      Draft.read .standard ⟨place, [], 0, fields⟩ '"' = .ok ⟨.inQuotes, [], 0, fields⟩ := by
    rcases starts with rfl | rfl <;> rfl
  have closed :
      Draft.read .standard ⟨.inQuotes, chars.reverse, chars.length, fields⟩ '"' =
        .ok ⟨.behindQuote, chars.reverse, chars.length, fields⟩ :=
    rfl
  have shape : quoted '"' chars ++ rest = '"' :: (chars.flatMap doubled ++ '"' :: rest) := by
    rw [quoted, cons_append, cons_append, append_assoc]
    rfl
  rw [shape, consume_of_read opened (.inl (by decide)),
    consume_added (fun character _ => consume_doubled character) [] (Nat.zero_le _), Nat.zero_add,
    append_nil, consume_of_read closed (.inl (by decide))]

/-- A field as it is written by default. -/
def spelling (cell : String) : List Char :=
  if cell.toList.any Layout.standard.isSpecial then quoted '"' cell.toList else cell.toList

/-- The cell holds a carriage return, and nothing that would put it between quotes. -/
def HasBareReturn (cell : String) : Prop :=
  '\r' ∈ cell.toList ∧ ∀ character ∈ cell.toList,
    character ≠ ',' ∧ character ≠ '"' ∧ character ≠ '\n'

theorem isSpecial_standard_iff (character : Char) : Layout.standard.isSpecial character ↔
      character = ',' ∨ character = '"' ∨ character = '\n' := by
  simp only [Layout.isSpecial, Layout.standard, Bool.or_eq_true, beq_iff_eq, Option.some.injEq,
    contains_cons, contains_nil, Bool.or_false, or_assoc]
  rw [eq_comm (a := '"')]

/-- A cell without a bare carriage return stands between quotes or is plain. -/
theorem spelling_of_not_bare (notBare : ¬ HasBareReturn cell) :
    spelling cell = quoted '"' cell.toList ∨
      spelling cell = cell.toList ∧ ∀ character ∈ cell.toList, IsPlain character := by
  unfold spelling
  split
  · exact .inl rfl
  · rename_i noSpecial
    simp only [any_eq_true, not_exists, not_and, isSpecial_standard_iff, not_or] at noSpecial
    refine .inr ⟨rfl, ?_⟩
    intro character mem
    obtain ⟨notSeparator, notQuote, notFeed⟩ := noSpecial character mem
    refine ⟨notSeparator, notQuote, notFeed, ?_⟩
    rintro rfl
    exact notBare ⟨mem, noSpecial⟩

/-- A bare carriage return stands behind plain characters. -/
theorem exists_front_of_bare (bare : HasBareReturn cell) : spelling cell = cell.toList ∧
      ∃ front back, cell.toList = front ++ '\r' :: back ∧
        (∀ character ∈ front, IsPlain character) ∧ ∀ character ∈ back, character ≠ '\n' := by
  obtain ⟨mem, noSpecial⟩ := bare
  constructor
  · have none : cell.toList.any Layout.standard.isSpecial = false := by
      rw [any_eq_false]
      intro character inCell isSpecial
      obtain ⟨notSeparator, notQuote, notFeed⟩ := noSpecial character inCell
      rcases (isSpecial_standard_iff character).mp isSpecial with rfl | rfl | rfl
      · exact notSeparator rfl
      · exact notQuote rfl
      · exact notFeed rfl
    rw [spelling, none]
    rfl
  · obtain ⟨front, back, shape, notFront⟩ := eq_append_cons_of_mem mem
    rw [shape] at noSpecial
    refine ⟨front, back, shape, ?_, ?_⟩
    · intro character inFront
      obtain ⟨notSeparator, notQuote, notFeed⟩ := noSpecial character (by simp [inFront])
      refine ⟨notSeparator, notQuote, notFeed, ?_⟩
      rintro rfl
      exact notFront inFront
    · intro character inBack
      exact (noSpecial character (by simp [inBack])).2.2

/-- A cell without a bare carriage return is read up to what closes it. -/
theorem consume_spelling (starts : place = .startOfRecord ∨ place = .startOfField)
    (notBare : ¬ HasBareReturn cell) :
    ∃ closing : Place,
      (closing.CanClose ∨ closing = place ∧ cell = "") ∧
        ∀ fields rest,
          consume ⟨place, [], 0, fields⟩ (spelling cell ++ rest) =
            if cell.toList.length ≤ fieldLimit then
              consume ⟨closing, cell.toList.reverse, cell.toList.length, fields⟩ rest
            else .error .badTable := by
  rcases spelling_of_not_bare notBare with shape | ⟨shape, plain⟩
  · refine ⟨.behindQuote, .inl (.inr (.inr rfl)), ?_⟩
    intro fields rest
    rw [shape, consume_quoted starts]
  · by_cases isEmpty : cell = ""
    · subst isEmpty
      refine ⟨place, .inr ⟨rfl, rfl⟩, ?_⟩
      intro fields rest
      rfl
    · refine ⟨.inField, .inl (.inr (.inl rfl)), ?_⟩
      intro fields rest
      have notEmpty : cell.toList ≠ [] := by simpa using isEmpty
      rw [shape, consume_plain starts plain notEmpty]

/-- The cell is read as it was written. -/
def Survives (cell : String) : Prop := ¬ HasBareReturn cell ∧ cell.toList.length ≤ fieldLimit

/-- A cell that survives and the separator behind it are read. -/
theorem consume_spelling_separator (starts : place = .startOfRecord ∨ place = .startOfField)
    (notBare : ¬ HasBareReturn cell) :
    consume ⟨place, [], 0, fields⟩ (spelling cell ++ ',' :: rest) =
      if cell.toList.length ≤ fieldLimit then
        consume ⟨.startOfField, [], 0, cell :: fields⟩ rest
      else .error .badTable := by
  obtain ⟨closing, canClose, read⟩ := consume_spelling starts notBare
  have closes : closing = .startOfRecord ∨ closing.CanClose := by
    rcases canClose with canClose | ⟨rfl, _⟩
    · exact .inr canClose
    · exact starts.imp_right .inl
  have restored : String.ofList cell.toList.reverse.reverse = cell := by simp
  rw [read, consume_separator closes, restored]

/-! ## Records -/

/-- A completed record in front of those behind it. -/
def withRecord (record : List String) (further : Except Defect (List (List String) × Draft)) :
    Except Defect (List (List String) × Draft) := do
  let (records, last) ← further
  return (record :: records, last)

/-- What stands behind a cell of a record: more cells, or the end of the line. -/
def behindCell (others : List String) (rest : List Char) : List Char :=
  match others with
  | [] => '\n' :: rest
  | second :: more => ',' :: (joined ',' ((second :: more).map spelling) ++ '\n' :: rest)

theorem lineText_cons (cell : String) (others : List String) (rest : List Char) :
    joined ',' ((cell :: others).map spelling) ++ '\n' :: rest =
      spelling cell ++ behindCell others rest := by
  cases others <;> simp [joined, behindCell]

/-! ## Bare carriage returns -/

/-- Behind a line end, characters other than line feeds are line ends or an error. -/
theorem consume_behindLineEnd (fields : List String) (rest : List Char)
    (noFeed : ∀ character ∈ back, character ≠ '\n') :
    consume ⟨.behindLineEnd, [], 0, fields⟩ (back ++ rest) = .error .badTable ∨
      consume ⟨.behindLineEnd, [], 0, fields⟩ (back ++ rest) =
        consume ⟨.behindLineEnd, [], 0, fields⟩ rest := by
  induction back with
  | nil => exact .inr rfl
  | cons character _ ih =>
    have notFeed := noFeed character mem_cons_self
    have next := ih (forall_mem_cons.mp noFeed).2
    by_cases isReturn : character = '\r'
    · have step :
          Draft.read .standard ⟨.behindLineEnd, [], 0, fields⟩ character =
            .ok ⟨.behindLineEnd, [], 0, fields⟩ := by
        simp [Draft.read, Draft.endsLine, isReturn]
      rwa [cons_append, consume_of_read step (.inl notFeed)]
    · have refused :
          Draft.read .standard ⟨.behindLineEnd, [], 0, fields⟩ character = .error .badTable := by
        simp [Draft.read, Draft.endsLine, isReturn, notFeed]
      rw [cons_append, consume, refused]
      exact .inl rfl

/-- A carriage return outside quotes closes the field; at the start of a record there is none. -/
theorem consume_return (starts : place = .startOfRecord ∨ place = .startOfField)
    (plain : ∀ character ∈ front, IsPlain character) (fields : List String) :
    ∃ closed : List String,
      (closed = String.ofList front :: fields ∨
        place = .startOfRecord ∧ front = [] ∧ closed = fields) ∧
        ∀ rest,
          consume ⟨place, [], 0, fields⟩ (front ++ '\r' :: rest) = .error .badTable ∨
            consume ⟨place, [], 0, fields⟩ (front ++ '\r' :: rest) =
              consume ⟨.behindLineEnd, [], 0, closed⟩ rest := by
  by_cases isEmpty : front = []
  · subst isEmpty
    rcases starts with rfl | rfl
    · refine ⟨fields, .inr ⟨rfl, rfl, rfl⟩, fun rest => .inr ?_⟩
      exact consume_of_read rfl (.inl (by decide))
    · refine ⟨"" :: fields, .inl rfl, fun rest => .inr ?_⟩
      exact consume_of_read rfl (.inl (by decide))
  · refine ⟨String.ofList front :: fields, .inl rfl, fun rest => ?_⟩
    rw [consume_plain starts plain isEmpty]
    have step :
        Draft.read .standard ⟨.inField, front.reverse, front.length, fields⟩ '\r' =
          .ok ⟨.behindLineEnd, [], 0, String.ofList front.reverse.reverse :: fields⟩ :=
      rfl
    split
    · rw [consume_of_read step (.inl (by decide)), reverse_reverse]
      exact .inr rfl
    · exact .inl rfl

/-- What is left of a record whose last cell is cut off at a bare carriage return. -/
inductive IsCutOff : List String → List String → Prop where
  | shortened {cells : List String} {last : String}
      (bare : HasBareReturn last) (shape : last.toList = cut.toList ++ '\r' :: back) :
      IsCutOff (cells ++ [last]) (cells ++ [cut])
  | dropped {last : String} (bare : HasBareReturn last) :
      IsCutOff [last] []

/-- Cells are read as they are, or the last of them is cut off, or one of them does not survive. -/
theorem consume_cells (starts : place = .startOfRecord ∨ place = .startOfField)
    (notEmpty : cells ≠ []) (fields : List String)
    (fresh : place = .startOfRecord → cells ≠ [""] ∧ fields = []) (rest : List Char) :
    (consume ⟨place, [], 0, fields⟩ (joined ',' (cells.map spelling) ++ '\n' :: rest) =
        .error .badTable ∧ ∃ cell ∈ cells, ¬ Survives cell) ∨
      ∃ kept, (kept = fields.reverse ++ cells ∧ (∀ cell ∈ cells, Survives cell) ∨
          IsCutOff (fields.reverse ++ cells) kept) ∧
        consume ⟨place, [], 0, fields⟩ (joined ',' (cells.map spelling) ++ '\n' :: rest) =
          withRecord kept (consume .empty rest) := by
  induction cells generalizing place fields with
  | nil => exact absurd rfl notEmpty
  | cons cell others ih =>
    rw [lineText_cons]
    by_cases bare : HasBareReturn cell
    · have damaged : ∃ other ∈ cell :: others, ¬ Survives other :=
        ⟨cell, mem_cons_self, fun survives => survives.1 bare⟩
      obtain ⟨spelled, _, back, shape, plain, noFeed⟩ := exists_front_of_bare bare
      obtain ⟨closed, isClosed, read⟩ := consume_return starts plain fields
      rw [spelled, shape, append_assoc]
      rcases read (back ++ behindCell others rest) with refused | closes
      · exact .inl ⟨refused, damaged⟩
      rcases consume_behindLineEnd closed (behindCell others rest) noFeed with refused | passed
      · exact .inl ⟨closes.trans refused, damaged⟩
      cases others with
      | nil =>
        refine .inr ⟨closed.reverse, .inr ?_, closes.trans passed⟩
        rcases isClosed with rfl | ⟨isStart, rfl, rfl⟩
        · rw [reverse_cons]
          exact .shortened bare (by simpa using shape)
        · rw [(fresh isStart).2]
          exact .dropped bare
      | cons =>
        -- The separator behind the cell is refused.
        exact .inl ⟨closes.trans passed, damaged⟩
    · by_cases short : cell.toList.length ≤ fieldLimit
      · cases others with
        | nil =>
          obtain ⟨closing, canClose, read⟩ := consume_spelling starts bare
          have closes : closing.CanClose := by
            rcases canClose with canClose | ⟨rfl, rfl⟩
            · exact canClose
            · rcases starts with rfl | rfl
              · exact absurd rfl (fresh rfl).1
              · exact .inl rfl
          have restored : String.ofList cell.toList.reverse.reverse = cell := by simp
          refine .inr ⟨_, .inl ⟨rfl, forall_mem_singleton.mpr ⟨bare, short⟩⟩, ?_⟩
          rw [behindCell, read, if_pos short, consume_lineFeed closes, restored, reverse_cons]
          rfl
        | cons =>
          have further := ih (.inr rfl) (by simp) (cell :: fields) (fun isStart => by cases isStart)
          rw [reverse_cons, append_assoc] at further
          rw [behindCell, consume_spelling_separator starts bare, if_pos short]
          rcases further with ⟨refused, other, mem, lost⟩ | ⟨kept, isRead, read⟩
          · exact .inl ⟨refused, other, .tail _ mem, lost⟩
          · refine .inr ⟨kept, isRead.imp_left fun whole => ?_, read⟩
            exact ⟨whole.1, forall_mem_cons.mpr ⟨⟨bare, short⟩, whole.2⟩⟩
      · obtain ⟨_, _, read⟩ := consume_spelling starts bare
        rw [read, if_neg short]
        exact .inl ⟨rfl, cell, mem_cons_self, fun survives => short survives.2⟩

/-! ## Lines -/

/-- A record as it is written by default. -/
def lineOf (cells : List String) : List Char :=
  if cells = [""] then quoted '"' [] ++ ['\n'] else joined ',' (cells.map spelling) ++ ['\n']

theorem field_standard (cell : String) :
    Layout.standard.field cell.toList = .ok (spelling cell) := by
  unfold Layout.field spelling
  split <;> rfl

theorem spelling_eq_nil_iff (cell : String) : spelling cell = [] ↔ cell = "" := by
  unfold spelling
  split
  · rename_i special
    constructor
    · intro isNil
      cases isNil
    · rintro rfl
      cases special
  · exact String.toList_eq_nil_iff

theorem line_standard (cells : List String) : Layout.standard.line cells = .ok (lineOf cells) := by
  have spelled :
      (cells.mapM fun cell => Layout.standard.field cell.toList) = .ok (cells.map spelling) := by
    induction cells with
    | nil => rfl
    | cons _ _ ih =>
      rw [mapM_cons, field_standard, ih]
      rfl
  rw [Layout.line, spelled, lineOf]
  by_cases isBlank : cells = [""]
  · subst isBlank
    rfl
  · have notBlank : cells.map spelling ≠ [[]] := by
      intro isNil
      obtain ⟨_, rfl, spelledNil⟩ := map_eq_singleton_iff.mp isNil
      rw [spelling_eq_nil_iff] at spelledNil
      exact isBlank (by rw [spelledNil])
    simp only [bind, Except.bind, if_neg isBlank]
    rfl

/-- What is read of a written record: the record, or what a bare carriage return leaves of it. -/
def IsReadAs (cells kept : List String) : Prop :=
  kept = cells ∧ (∀ cell ∈ cells, Survives cell) ∨ IsCutOff cells kept

theorem survives_empty : Survives "" :=
  ⟨fun bare => absurd bare.1 (by decide), by decide⟩

/-- A written record is read as it is, or one of its cells does not survive. -/
theorem consume_lineOf (notEmpty : cells ≠ []) (rest : List Char) :
    (consume .empty (lineOf cells ++ rest) = .error .badTable ∧ ∃ cell ∈ cells, ¬ Survives cell) ∨
      ∃ kept, IsReadAs cells kept ∧
        consume .empty (lineOf cells ++ rest) = withRecord kept (consume .empty rest) := by
  by_cases isBlank : cells = [""]
  · subst isBlank
    refine .inr ⟨[""], .inl ⟨rfl, ?_⟩, ?_⟩
    · intro cell mem
      rw [mem_singleton.mp mem]
      exact survives_empty
    · exact consume_lineFeed (.inr (.inr rfl)) [] 0
  · have text : lineOf cells ++ rest = joined ',' (cells.map spelling) ++ '\n' :: rest := by
      simp [lineOf, isBlank]
    rw [text]
    exact consume_cells (.inl rfl) notEmpty [] (fun _ => ⟨isBlank, rfl⟩) rest

/-- Written records are read one by one, unless a cell does not survive. -/
theorem consume_lines (notEmpty : ∀ cells ∈ records, cells ≠ []) :
    (consume .empty (records.flatMap lineOf) = .error .badTable ∧
        ∃ cells ∈ records, ∃ cell ∈ cells, ¬ Survives cell) ∨
      ∃ kept, List.Forall₂ IsReadAs records kept ∧
        consume .empty (records.flatMap lineOf) = .ok (kept, .empty) := by
  induction records with
  | nil => exact .inr ⟨[], .nil, rfl⟩
  | cons cells others ih =>
    have further := ih (forall_mem_cons.mp notEmpty).2
    rw [flatMap_cons]
    rcases consume_lineOf (notEmpty cells mem_cons_self) (others.flatMap lineOf) with
      ⟨refused, damaged⟩ | ⟨kept, isReadAs, read⟩
    · exact .inl ⟨refused, cells, mem_cons_self, damaged⟩
    · rw [read]
      rcases further with ⟨refused, other, mem, damaged⟩ | ⟨more, areReadAs, readMore⟩
      · rw [refused]
        exact .inl ⟨rfl, other, .tail _ mem, damaged⟩
      · rw [readMore]
        exact .inr ⟨kept :: more, .cons isReadAs areReadAs, rfl⟩

theorem endsLine_lines (records : List (List String)) : EndsLine (records.flatMap lineOf) := by
  have lineEnds : ∀ cells, ∃ front, lineOf cells = front ++ ['\n'] := by
    intro cells
    unfold lineOf
    split <;> exact ⟨_, rfl⟩
  rcases eq_nil_or_concat records with rfl | ⟨others, cells, rfl⟩
  · intro last isLast
    cases isLast
  · obtain ⟨_, shape⟩ := lineEnds cells
    intro last isLast
    simp [shape] at isLast
    exact isLast.symm

theorem read_lines (notEmpty : ∀ cells ∈ records, cells ≠ []) :
    (read .standard (records.flatMap lineOf) = .error .badTable ∧
        ∃ cells ∈ records, ∃ cell ∈ cells, ¬ Survives cell) ∨
      ∃ kept, List.Forall₂ IsReadAs records kept ∧
        read .standard (records.flatMap lineOf) = .ok kept := by
  rw [read_eq_consume (endsLine_lines records)]
  rcases consume_lines notEmpty with ⟨refused, damaged⟩ | ⟨kept, areReadAs, read⟩
  · rw [refused]
    exact .inl ⟨rfl, damaged⟩
  · rw [read]
    refine .inr ⟨kept, areReadAs, ?_⟩
    exact congrArg Except.ok (append_nil kept)

end Weave.Csv
