import Mathlib.Data.List.Nodup
import Weave.Format
import Weave.Proofs.Csv.Records
import Weave.Proofs.Value.Entries

namespace Weave

open List Value

/-!
# Tables read back from their text

A table of texts is written by default as its names and its records, a line each.  It is read back
if and only if each of its fields survives, or there is no record: then no name is written.
-/

variable {cells : List String} {records kept : List (List String)}

namespace Csv

/-! ## What a bare carriage return leaves of a record -/

theorem IsCutOff.exists_lost {cells kept : List String} (isCutOff : IsCutOff cells kept)
    (unique : cells.Nodup) :
    ∃ cell ∈ cells, cell ∉ kept := by
  cases isCutOff with
  | @shortened _ cut cells last _ shape =>
    have notBefore : last ∉ cells := by
      intro mem
      exact (nodup_append.mp unique).2.2 last mem last mem_cons_self rfl
    have notCut : last ≠ cut := by
      rintro rfl
      simp at shape
    exact ⟨last, mem_append_right _ mem_cons_self, by simp [notBefore, notCut]⟩
  | @dropped last => exact ⟨last, mem_cons_self, not_mem_nil⟩

theorem IsCutOff.ne {cells kept : List String} (isCutOff : IsCutOff cells kept) : kept ≠ cells := by
  cases isCutOff with
  | shortened _ shape =>
    intro same
    rw [append_cancel_left_eq, cons.injEq] at same
    rw [same.1] at shape
    simp at shape
  | dropped => simp

/-- A record that is not dropped keeps the number of its cells. -/
theorem IsCutOff.length_eq {cells kept : List String} (isCutOff : IsCutOff cells kept)
    (notDropped : kept ≠ []) :
    kept.length = cells.length := by
  cases isCutOff with
  | shortened => simp
  | dropped => exact absurd rfl notDropped

theorem IsReadAs.survive_of_eq (isReadAs : IsReadAs cells cells) :
    ∀ cell ∈ cells, Survives cell := by
  rcases isReadAs with ⟨_, survive⟩ | isCutOff
  · exact survive
  · exact absurd rfl isCutOff.ne

theorem IsReadAs.length_eq {cells kept : List String} (isReadAs : IsReadAs cells kept)
    (notDropped : kept ≠ []) :
    kept.length = cells.length := by
  rcases isReadAs with ⟨rfl, _⟩ | isCutOff
  · rfl
  · exact isCutOff.length_eq notDropped

theorem eq_of_all_survive (areReadAs : Forall₂ IsReadAs records kept)
    (survive : ∀ cells ∈ records, ∀ cell ∈ cells, Survives cell) :
    kept = records := by
  induction areReadAs with
  | nil => rfl
  | @cons cells kept _ _ isReadAs _ ih =>
    rw [forall_mem_cons] at survive
    obtain rfl : kept = cells := by
      rcases isReadAs with ⟨same, _⟩ | isCutOff
      · exact same
      · cases isCutOff with
        | shortened bare => exact absurd bare (survive.1 _ (mem_append_right _ mem_cons_self)).1
        | dropped bare => exact absurd bare (survive.1 _ mem_cons_self).1
    rw [ih survive.2]

/-! ## Tables -/

/-- A table of texts: records with a cell under each of the names. -/
structure Table where
  names : List String
  records : List (List String)
  named : names ≠ []
  unique : names.Nodup
  complete : ∀ cells ∈ records, cells.length = names.length

namespace Table

/-- The cells of a record under their names. -/
def entries (table : Table) (cells : List String) : Entries :=
  (table.names.zip cells).map fun (name, cell) => (.text name, .text cell)

/-- A record as an object. -/
def row (table : Table) (cells : List String) : Value := .record (table.entries cells)

/-- The rows as a list of objects. -/
def toValue (table : Table) : Value := .array (table.records.map table.row)

/-- All texts that are written. -/
def fields (table : Table) : List String := table.names ++ table.records.flatten

/-- The table as it is written. -/
def text (table : Table) : List Char :=
  if table.records = [] then [] else (table.names :: table.records).flatMap lineOf

variable (table : Table)

variable {table} in
theorem mem_fields (isLine : cells ∈ table.names :: table.records) (inCells : cell ∈ cells) :
    cell ∈ table.fields := by
  rcases mem_cons.mp isLine with rfl | inRecords
  · exact mem_append_left _ inCells
  · exact mem_append_right _ (mem_flatten_of_mem inRecords inCells)

theorem records_notEmpty : ∀ cells ∈ table.names :: table.records, cells ≠ [] := by
  intro cells member
  rcases mem_cons.mp member with rfl | member
  · exact table.named
  · intro isNil
    have sameLength := table.complete cells member
    rw [isNil] at sameLength
    exact table.named (length_eq_zero_iff.mp sameLength.symm)

theorem keys_entries (full : cells.length = table.names.length) :
    (table.entries cells).map Prod.fst = table.names.map Key.text := by
  have front : table.names = (table.names.zip cells).map Prod.fst := (map_fst_zip (by omega)).symm
  conv_rhs => rw [front]
  simp [entries]

theorem values_entries (full : cells.length = table.names.length) :
    (table.entries cells).map Prod.snd = cells.map Value.text := by
  have behind : cells = (table.names.zip cells).map Prod.snd := (map_snd_zip (by omega)).symm
  conv_rhs => rw [behind]
  simp [entries]

theorem nodup_keys_entries (full : cells.length = table.names.length) :
    ((table.entries cells).map Prod.fst).Nodup := by
  rw [table.keys_entries full]
  exact table.unique.map (fun _ _ => Key.text.inj)

/-- Records of full length are told apart by their objects. -/
theorem row_injective {cells others : List String} (full : cells.length = table.names.length)
    (othersFull : others.length = table.names.length) (same : table.row cells = table.row others) :
    cells = others := by
  simp only [row, object.injEq, true_and] at same
  have sameValues := congrArg (map Prod.snd) same
  rw [table.values_entries full, table.values_entries othersFull] at sameValues
  exact map_injective_iff.mpr (fun _ _ => text.inj) sameValues

end Table

end Csv

namespace Format

open Csv

variable (table : Table)

/-! ## Writing -/

theorem write_standard (cells : List String) :
    Csv.write .standard [cells] = .ok (String.ofList (lineOf cells)) := by
  simp only [Csv.write, mapM_cons, mapM_nil, line_standard, bind, Except.bind, pure,
    Except.pure, flatten_cons, flatten_nil, append_nil]

/-- Columns that are texts head the table as they are. -/
theorem headerOf_texts (names : List String) : headerOf (names.map text) = .ok names := by
  induction names with
  | nil => rfl
  | cons _ _ ih =>
    rw [headerOf, map_cons, mapM_cons, ← headerOf, ih]
    rfl

theorem cellsOf_of_found {names cells : List String} (full : cells.length = names.length)
    {entries : Entries}
    (found : ∀ pair ∈ names.zip cells, entries.find? (.text pair.1) = some (.text pair.2)) :
    cellsOf (names.map text) (.object origin entries) = .ok cells := by
  induction names generalizing cells with
  | nil =>
    rw [length_eq_zero_iff.mp full]
    rfl
  | cons name _ ih =>
    obtain ⟨cell, _, rfl⟩ := exists_cons_of_length_eq_add_one full
    have further := ih (by simpa using full) (forall_mem_cons.mp found).2
    have here := found (name, cell) mem_cons_self
    rw [cellsOf] at further ⊢
    rw [map_cons, mapM_cons, further]
    simp only [Key.ofValue?, Option.bind_some, here]
    rfl

theorem columnsOf_entries (full : cells.length = table.names.length) :
    columnsOf [] (table.entries cells) = .ok (table.names.map text) := by
  have columns :
      ((table.entries cells).map fun entry => entry.1.toValue) = table.names.map text := by
    have keys := congrArg (map Key.toValue) (table.keys_entries full)
    rw [map_map, map_map] at keys
    exact keys
  have some : (table.names.map text).isEmpty = false := by
    simpa using table.named
  change (if ((table.entries cells).map fun entry => entry.1.toValue).isEmpty then _ else _) = _
  rw [columns, some]
  rfl

theorem mapM_rows {records : List (List String)}
    (full : ∀ cells ∈ records, cells.length = table.names.length) :
    ((records.map table.row).mapM fun row => do
        causedByDefect (Csv.write .standard [← cellsOf (table.names.map text) row])) =
      .ok (records.map fun cells => String.ofList (lineOf cells)) := by
  induction records with
  | nil => rfl
  | cons cells _ ih =>
    have further := ih (forall_mem_cons.mp full).2
    have isFull := full cells mem_cons_self
    have found : cellsOf (table.names.map text) (table.row cells) = .ok cells :=
      cellsOf_of_found isFull fun pair mem =>
        (lookup_eq_some_iff_mem (table.nodup_keys_entries isFull)).mpr
          (mem_map.mpr ⟨pair, mem, rfl⟩)
    rw [map_cons, mapM_cons, further, found]
    simp only [bind, write_standard]
    rfl

theorem join_ofList (parts : List (List Char)) :
    String.join (parts.map String.ofList) = String.ofList parts.flatten := by
  induction parts with
  | nil => rfl
  | cons _ _ ih => simp [String.join_cons, ih]

theorem writeCsv_table : writeCsv [] table.toValue = .ok (.text (String.ofList table.text)) := by
  change writeRows [] (table.records.map table.row) = _
  have complete := table.complete
  rw [Table.text]
  generalize table.records = records at complete ⊢
  cases records with
  | nil => rfl
  | cons first others =>
    have columns := columnsOf_entries table (complete first mem_cons_self)
    have lines := mapM_rows table complete
    rw [map_cons] at lines ⊢
    simp only [Table.row] at lines ⊢
    have joinedLines :
        String.ofList (lineOf table.names) ++
            String.join ((first :: others).map fun cells => String.ofList (lineOf cells)) =
          String.ofList ((table.names :: first :: others).flatMap lineOf) := by
      have parts := join_ofList ((first :: others).map lineOf)
      rw [map_map] at parts
      rw [flatMap_cons, String.ofList_append, flatMap_def, ← parts]
      rfl
    rw [if_neg (by simp), ← joinedLines, writeRows, columns]
    have layout : objectLayoutOf [] = .ok .standard := rfl
    have header : Options.flag [] "header" true := rfl
    have top :
        causedByDefect (Csv.write .standard [table.names]) =
          .ok (String.ofList (lineOf table.names)) := by
      rw [write_standard]
      rfl
    simp only [bind, Except.bind] at lines ⊢
    simp only [layout, header, if_true, headerOf_texts, pure, Except.pure, top]
    rw [lines]

/-! ## Reading -/

theorem rowOf_of_full (full : cells.length = table.names.length) :
    rowOf table.names cells = table.row cells := by
  have named := Entries.ofList_of_nodup (table.nodup_keys_entries full)
  simp only [rowOf, drop_of_length_le (Nat.le_of_eq full), map_nil, isEmpty_nil,
    if_true, drop_of_length_le (Nat.le_of_eq full.symm), append_nil, Table.row]
  exact congrArg record named

/-- A row has no texts for keys but the names of the header. -/
theorem mem_header_of_mem_rowOf {entries : Entries} (isRow : rowOf header cells = .record entries)
    (mem : .text name ∈ entries.map Prod.fst) :
    name ∈ header := by
  simp only [rowOf, object.injEq, true_and] at isRow
  rw [← isRow] at mem
  rcases Entries.mem_keys_insertAll mem with inNothing | inRow
  · cases inNothing
  · simp only [map_append, mem_append, map_map, mem_map] at inRow
    rcases inRow with (⟨⟨column, cell⟩, inZip, isKey⟩ | inExtra) | ⟨column, inMissing, isKey⟩
    · rw [← Key.text.inj isKey]
      exact (of_mem_zip inZip).1
    · obtain ⟨_, inSurplus, isKey⟩ := inExtra
      split at inSurplus
      · cases inSurplus
      · rw [mem_singleton.mp inSurplus] at isKey
        cases isKey
    · rw [← Key.text.inj isKey]
      exact mem_of_mem_drop inMissing

theorem survive_header (isReadAs : IsReadAs table.names header) {kept : List (List String)}
    (notEmpty : table.records ≠ []) (same : kept.map (rowOf header) = table.records.map table.row) :
    header = table.names ∧ ∀ name ∈ table.names, Survives name := by
  rcases isReadAs with ⟨isNames, survive⟩ | isCutOff
  · exact ⟨isNames, survive⟩
  · obtain ⟨_, inNames, lost⟩ := isCutOff.exists_lost table.unique
    obtain ⟨first, isFirst⟩ := exists_mem_of_ne_nil _ notEmpty
    have inRows : table.row first ∈ kept.map (rowOf header) := by
      rw [same]
      exact mem_map_of_mem isFirst
    obtain ⟨_, _, isRow⟩ := mem_map.mp inRows
    refine absurd (mem_header_of_mem_rowOf isRow ?_) lost
    rw [table.keys_entries (table.complete first isFirst)]
    exact mem_map_of_mem inNames

theorem survive_records (areReadAs : Forall₂ IsReadAs records kept)
    (full : ∀ cells ∈ records, cells.length = table.names.length)
    (notDropped : ∀ cells ∈ kept, cells ≠ [])
    (same : kept.map (rowOf table.names) = records.map table.row) :
    ∀ cells ∈ records, ∀ cell ∈ cells, Survives cell := by
  induction areReadAs with
  | nil =>
    intro cells mem
    cases mem
  | @cons cells keptCells _ _ isReadAs _ ih =>
    rw [map_cons, map_cons, cons.injEq] at same
    have cellsFull := full cells mem_cons_self
    have keptFull : keptCells.length = table.names.length := by
      rw [isReadAs.length_eq (notDropped keptCells mem_cons_self), cellsFull]
    have sameCells : keptCells = cells := by
      apply table.row_injective keptFull cellsFull
      rw [← rowOf_of_full table keptFull, same.1]
    intro other mem
    rcases mem_cons.mp mem with rfl | inOthers
    · subst sameCells
      exact isReadAs.survive_of_eq
    · exact ih (forall_mem_cons.mp full).2 (forall_mem_cons.mp notDropped).2 same.2 other inOthers

/-- What is left of the lines of a table gives its rows if and only if all fields survive. -/
theorem rowsOf_eq_iff (notEmpty : table.records ≠ [])
    (areReadAs : Forall₂ IsReadAs (table.names :: table.records) kept) :
    rowsOf kept = table.records.map table.row ↔ ∀ field ∈ table.fields, Survives field := by
  constructor
  · intro same
    obtain ⟨_, rows, isHeader, areRows, rfl⟩ := forall₂_cons_left_iff.mp areReadAs
    rw [rowsOf] at same
    obtain ⟨rfl, namesSurvive⟩ := survive_header table isHeader notEmpty same
    have noneDropped : ∀ cells ∈ rows, (!cells.isEmpty) := by
      have sameLength := congrArg length same
      rw [length_map, length_map, areRows.length_eq] at sameLength
      exact length_filter_eq_length_iff.mp sameLength
    rw [filter_eq_self.mpr noneDropped] at same
    have recordsSurvive :=
      survive_records table areRows table.complete (by simpa using noneDropped) same
    intro field mem
    rcases mem_append.mp mem with inNames | inRecords
    · exact namesSurvive field inNames
    · obtain ⟨cells, inTable, inCells⟩ := mem_flatten.mp inRecords
      exact recordsSurvive cells inTable field inCells
  · intro survive
    have linesSurvive :
        ∀ cells ∈ table.names :: table.records, ∀ cell ∈ cells, Survives cell :=
      fun cells isLine cell inCells => survive cell (Table.mem_fields isLine inCells)
    have notDropped : ∀ cells ∈ table.records, (!cells.isEmpty) := by
      intro cells mem
      simpa using table.records_notEmpty cells (.tail _ mem)
    rw [eq_of_all_survive areReadAs linesSurvive, rowsOf, filter_eq_self.mpr notDropped]
    exact map_congr_left (fun cells mem => rowOf_of_full table (table.complete cells mem))

/-- A table of texts that is written by default is read back if and only if it has no record, or
no name and no cell is too long or has a carriage return that stands without quotes. -/
theorem readNamed_of_writeNamed_csv : ∃ text,
      writeNamed "csv" [] table.toValue = .ok (.text text) ∧
        (readNamed "csv" [] (.text text) = .ok table.toValue ↔
          table.records = [] ∨
            ∀ field ∈ table.fields, ¬ HasBareReturn field ∧ field.toList.length ≤ fieldLimit) := by
  have isCsv : named? "csv" = some .csv := by decide +kernel
  have written :
      writeNamed "csv" [] table.toValue = .ok (.text (String.ofList table.text)) := by
    simp only [writeNamed, isCsv, write, writeCsv_table]
  have readLines :
      readCsv [] (.text (String.ofList table.text)) =
        (do
          let records ← causedByDefect (Csv.read .standard table.text)
          return .array (rowsOf records)) := by
    have separator : oneCharacter ',' (Options.getD [] "separator" (.text ",")) = .ok ',' := rfl
    have quote : oneCharacter '"' (Options.getD [] "quote" (.text "\"")) = .ok '"' := rfl
    have header : Options.flag [] "header" true = true := rfl
    simp only [readCsv, textOf, separator, quote, header, String.toList_ofList, bind, Except.bind,
      if_true]
    rfl
  refine ⟨_, written, ?_⟩
  simp only [readNamed, isCsv, read, readLines]
  by_cases isEmpty : table.records = []
  · have noText : table.text = [] := if_pos isEmpty
    have noRows : table.toValue = .array [] := by rw [Table.toValue, isEmpty, List.map_nil]
    rw [noText, noRows]
    exact iff_of_true rfl (.inl isEmpty)
  · have lines : table.text = (table.names :: table.records).flatMap lineOf := if_neg isEmpty
    rw [lines]
    rcases read_lines table.records_notEmpty with
      ⟨refused, cells, inLines, cell, inCells, lost⟩ | ⟨kept, areReadAs, readKept⟩
    · rw [refused]
      refine iff_of_false (fun isOk => by cases isOk) ?_
      rintro (noRecord | survive)
      · exact isEmpty noRecord
      · exact lost (survive cell (Table.mem_fields inLines inCells))
    · rw [readKept, or_iff_right isEmpty]
      refine Iff.trans ?_ (rowsOf_eq_iff table isEmpty areReadAs)
      change Except.ok (Value.array (rowsOf kept)) =
        .ok (Value.array (table.records.map table.row)) ↔ _
      rw [Except.ok.injEq, Value.list.injEq]
      simp only [true_and]

/-- A cell that ends in a carriage return is cut off. -/
theorem readNamed_of_writeNamed_csv_return : ∃ text,
      writeNamed "csv" [] (.array [.record [(.text "a", .text "x\r")]]) = .ok (.text text) ∧
        readNamed "csv" [] (.text text) ≠ .ok (.array [.record [(.text "a", .text "x\r")]]) := by
  have bare : HasBareReturn "x\r" := by
    simp [HasBareReturn]
  obtain ⟨text, written, readBack⟩ :=
    readNamed_of_writeNamed_csv ⟨["a"], [["x\r"]], by decide, by decide, by decide⟩
  refine ⟨text, written, ?_⟩
  intro same
  rcases readBack.mp same with noRecord | survive
  · cases noRecord
  · exact (survive "x\r" (by decide)).1 bare

end Format

end Weave
