import Weave.Proofs.Csv.RoundTrip
import Weave.Proofs.Json.RoundTrip

namespace Weave

open List

/-!
# Keys that JSON has no text for

The rows that are read from a table are written as JSON without fail, but the text is read back just
if no key is missing.  A row has an entry without a key if its record is longer than the header.
-/

/-- Some record of the table has more cells than the header has names. -/
def Csv.HasSurplus (text : String) : Prop :=
  ∃ names records,
    Csv.read .standard text.toList = .ok (names :: records) ∧
      ∃ cells ∈ records, names.length < cells.length

namespace Format

variable {names cells : List String}

/-- A row is made of texts, of nulls for missing cells, and of a list of texts without a key. -/
theorem mem_rowOf (isRow : rowOf names cells = .record entries) (mem : entry ∈ entries) :
    (∃ name cell, entry = (.text name, .text cell)) ∨ (∃ name, entry = (.text name, .null)) ∨
      entry = (.missing, .array ((cells.drop names.length).map Value.text)) := by
  simp only [rowOf, Value.object.injEq, true_and] at isRow
  rw [← isRow] at mem
  rcases mem_append.mp (Entries.mem_ofList mem) with inFront | inMissing
  · rcases mem_append.mp inFront with inNamed | inExtra
    · obtain ⟨_, _, rfl⟩ := mem_map.mp inNamed
      exact .inl ⟨_, _, rfl⟩
    · split at inExtra
      · cases inExtra
      · exact .inr (.inr (mem_singleton.mp inExtra))
  · obtain ⟨name, _, rfl⟩ := mem_map.mp inMissing
    exact .inr (.inl ⟨name, rfl⟩)

theorem isWritable_rowOf {style : Json.Style} (unsorted : style.sortKeys = false)
    (names cells : List String) :
    Json.IsWritable style (rowOf names cells) := by
  refine .object (fun sorts => absurd (unsorted.symm.trans sorts) (by decide))
    (Entries.nodup_keys_ofList _) ?_
  intro entry mem
  rcases mem_rowOf rfl mem with ⟨name, cell, rfl⟩ | ⟨name, rfl⟩ | rfl
  · exact .text cell
  · exact .null
  · refine .list ?_
    intro item inSurplus
    obtain ⟨cell, _, rfl⟩ := mem_map.mp inSurplus
    exact .text cell

theorem not_holdsLongInteger_rowOf (names cells : List String) :
    ¬ Json.HoldsLongInteger (rowOf names cells) := by
  rintro (_ | _ | ⟨mem, long⟩)
  rcases mem_rowOf rfl mem with ⟨name, cell, rfl⟩ | ⟨name, rfl⟩ | rfl
  · cases long
  · cases long
  · cases long with
    | list inSurplus longItem =>
      obtain ⟨_, _, rfl⟩ := mem_map.mp inSurplus
      cases longItem

/-- A row lacks a key if and only if it has more cells than there are names. -/
theorem lacksKey_rowOf_iff : Json.LacksKey (rowOf names cells) ↔ names.length < cells.length := by
  constructor
  · rintro (missing | _ | ⟨mem, lacks⟩)
    · obtain ⟨_, mem, isMissing⟩ := mem_map.mp missing
      by_contra notLonger
      have inRow := Entries.mem_ofList mem
      have noSurplus := drop_eq_nil_of_le (Nat.le_of_not_lt notLonger)
      simp only [noSurplus, map_nil, isEmpty_nil, if_true, append_nil, mem_append, mem_map] at inRow
      rcases inRow with ⟨_, _, rfl⟩ | ⟨_, _, rfl⟩ <;> cases isMissing
    · rcases mem_rowOf rfl mem with ⟨name, cell, rfl⟩ | ⟨name, rfl⟩ | rfl
      · cases lacks
      · cases lacks
      · cases lacks with
        | list inSurplus lacksItem =>
          obtain ⟨_, _, rfl⟩ := mem_map.mp inSurplus
          cases lacksItem
  · intro longer
    have surplus : ((cells.drop names.length).map Value.text).isEmpty = false := by
      simpa using longer
    have complete := drop_eq_nil_of_le (Nat.le_of_lt longer)
    refine .here ?_
    simp only [surplus, complete, Bool.false_eq_true, if_false, map_nil, append_nil,
      Entries.ofList, Entries.insertAll, foldl_append, foldl_cons, foldl_nil,
      Entries.insert, keys_setPair]
    split
    · assumption
    · exact mem_append_right _ mem_cons_self

theorem lacksKey_rowsOf_iff (names : List String) (records : List (List String)) :
    Json.LacksKey (.array (rowsOf (names :: records))) ↔
      ∃ cells ∈ records, names.length < cells.length := by
  constructor
  · rintro (_ | ⟨mem, lacks⟩)
    obtain ⟨cells, inRecords, rfl⟩ := mem_map.mp mem
    exact ⟨cells, (mem_filter.mp inRecords).1, lacksKey_rowOf_iff.mp lacks⟩
  · rintro ⟨cells, inRecords, longer⟩
    refine .list (mem_map_of_mem (mem_filter.mpr ⟨inRecords, ?_⟩)) (lacksKey_rowOf_iff.mpr longer)
    cases cells with
    | nil => cases longer
    | cons => rfl

theorem readNamed_csv_eq_ok {text : String}
    (accepted : readNamed "csv" [] (.text text) = .ok rows) :
    ∃ records, Csv.read .standard text.toList = .ok records ∧ rows = .array (rowsOf records) := by
  have readLines :
      readCsv [] (.text text) =
        (do
          let records ← causedByDefect (Csv.read .standard text.toList)
          return .array (rowsOf records)) :=
    rfl
  simp only [readNamed, read, readLines] at accepted
  cases isRead : Csv.read .standard text.toList with
  | error =>
    rw [isRead] at accepted
    cases accepted
  | ok records =>
    rw [isRead] at accepted
    cases accepted
    exact ⟨records, rfl, rfl⟩

/-- Rows that are read from a table are written as JSON with every indentation.  The text is read
as the same rows if no record has more cells than the header has names, and refused else. -/
theorem readNamed_json_of_readNamed_csv {text : String} {rows : Value}
    (accepted : readNamed "csv" [] (.text text) = .ok rows) (writing reading : Options)
    {blanks : Option Nat} (indent : indentOf writing = .ok blanks)
    (unsorted : writing.flag "sort_keys" false = false) :
    ∃ written,
      writeNamed "json" writing rows = .ok (.text written) ∧
        (¬ Csv.HasSurplus text → readNamed "json" reading (.text written) = .ok rows) ∧
        (Csv.HasSurplus text →
          readNamed "json" reading (.text written) =
            .error (.reading "json" (.defect .badJson))) := by
  obtain ⟨records, isRead, rfl⟩ := readNamed_csv_eq_ok accepted
  have lacksKey_iff : Json.LacksKey (.array (rowsOf records)) ↔ Csv.HasSurplus text := by
    rw [Csv.HasSurplus, isRead]
    cases records with
    | nil =>
      refine iff_of_false ?_ (by rintro ⟨_, _, ⟨⟩, _⟩)
      rintro (_ | ⟨member, _⟩)
      cases member
    | cons => simp [lacksKey_rowsOf_iff]
  have areRows : ∀ row ∈ rowsOf records, ∃ names cells, row = rowOf names cells := by
    intro row member
    cases records with
    | nil => cases member
    | cons names =>
      obtain ⟨cells, _, rfl⟩ := List.mem_map.mp member
      exact ⟨names, cells, rfl⟩
  have settled :=
    @Json.settled_write _
      ⟨blanks, writing.flag "ensure_ascii" true, writing.flag "sort_keys" false⟩
      (.list fun row member => by
        obtain ⟨names, cells, rfl⟩ := areRows row member
        exact isWritable_rowOf unsorted names cells)
  cases isWritten :
      Json.write ⟨blanks, writing.flag "ensure_ascii" true, writing.flag "sort_keys" false⟩
        (.array (rowsOf records)) with
  | error =>
    rw [isWritten] at settled
    obtain ⟨row, member, long⟩ := Json.holdsLongInteger_list_iff.mpr settled.1
    obtain ⟨names, cells, rfl⟩ := areRows row member
    exact absurd long (not_holdsLongInteger_rowOf names cells)
  | ok written =>
    rw [isWritten] at settled
    refine ⟨written, writeNamed_json_of_write indent isWritten, ?_, ?_⟩
    · intro complete
      rw [readNamed_json_of_reads reading settled.2, Json.Style.readBack,
        if_neg (mt lacksKey_iff.mp complete), Json.Style.order, unsorted]
      rfl
    · intro surplus
      rw [readNamed_json_of_reads reading settled.2, Json.Style.readBack,
        if_pos (lacksKey_iff.mpr surplus)]
      rfl

/-- One cell too many is enough. -/
theorem readNamed_json_of_readNamed_csv_surplus : readNamed "csv" [] (.text "a\n1,2\n") =
      .ok (.array [.record [(.text "a", .text "1"), (.missing, .array [.text "2"])]]) ∧
    ∃ written,
      writeNamed "json" [(.text "indent", .int 2)]
          (.array [.record [(.text "a", .text "1"), (.missing, .array [.text "2"])]]) =
        .ok (.text written) ∧
      readNamed "json" [] (.text written) = .error (.reading "json" (.defect .badJson)) := by
  have accepted :
      readNamed "csv" [] (.text "a\n1,2\n") =
        .ok (.array [.record [(.text "a", .text "1"), (.missing, .array [.text "2"])]]) := by
    cbv
  have surplus : Csv.HasSurplus "a\n1,2\n" :=
    ⟨["a"], [["1", "2"]], by cbv, ["1", "2"], List.mem_cons_self, by decide⟩
  have indent : indentOf [(.text "indent", .int 2)] = .ok (some 2) := rfl
  obtain ⟨written, isWritten, _, refused⟩ :=
    readNamed_json_of_readNamed_csv accepted [(.text "indent", .int 2)] [] indent rfl
  exact ⟨accepted, written, isWritten, refused surplus⟩

end Format

end Weave
