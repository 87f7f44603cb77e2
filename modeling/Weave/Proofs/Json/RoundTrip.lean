import Weave.Format
import Weave.Proofs.Json.Reading
import Weave.Proofs.Value.Order

namespace Weave

open List

/-!
# Written JSON is read back

A document is a value that JSON has a form for.  Whatever the layout, the text of a document is
read as the document again, in the order of its keys if they are sorted.  The one thing that
stands in the way is an integer with more digits than the reader takes, and such a document is
refused by the writer already.  An entry whose key is missing is written like any other one, with a
word in the place of the quoted name, and no reader takes that word for a name.
-/

variable {entries : List (Key × Value)} {value : Value} {parts : List String} {items : List Value}
  {style : Style} {text : String} {options : Options}

mutual

/-- The value with the entries of all objects inside it in the order of their keys. -/
def Value.inKeyOrder : Value → Value
  | .list origin items => .list origin (itemsInKeyOrder items)
  | .object origin entries =>
    .object origin
      ((entriesInKeyOrder entries).mergeSort fun left right => left.1.shown ≤ right.1.shown)
  | value => value

/-- All items with their entries in the order of the keys. -/
def itemsInKeyOrder : List Value → List Value
  | [] => []
  | item :: rest => item.inKeyOrder :: itemsInKeyOrder rest

/-- All entries, in the order in which they stand, with the entries inside them in the order of the
keys. -/
def entriesInKeyOrder : List (Key × Value) → List (Key × Value)
  | [] => []
  | (key, value) :: rest => (key, value.inKeyOrder) :: entriesInKeyOrder rest

end

theorem itemsInKeyOrder_eq_map (items : List Value) :
    itemsInKeyOrder items = items.map Value.inKeyOrder := by
  induction items with
  | nil => rfl
  | cons _ _ ih => rw [itemsInKeyOrder, ih, map_cons]

theorem entriesInKeyOrder_eq_map (entries : List (Key × Value)) :
    entriesInKeyOrder entries = entries.map fun entry => (entry.1, entry.2.inKeyOrder) := by
  induction entries with
  | nil => rfl
  | cons _ _ ih => rw [entriesInKeyOrder, ih, map_cons]

namespace Json

/-- Values made of null, truth values, integers, texts, lists, and objects whose keys are texts. -/
inductive IsDocument : Value → Prop where
  | null : IsDocument .null
  | bool (value : Bool) : IsDocument (.bool value)
  | int (value : Int) : IsDocument (.int value)
  | text (value : String) : IsDocument (.text value)
  | list {items : List Value} (each : ∀ item ∈ items, IsDocument item) :
      IsDocument (.array items)
  | object {entries : List (Key × Value)} (named : Key.missing ∉ entries.map Prod.fst)
      (unique : (entries.map Prod.fst).Nodup) (each : ∀ entry ∈ entries, IsDocument entry.2) :
      IsDocument (.record entries)

/-- Somewhere inside the value stands an integer with more digits than can be read. -/
inductive HoldsLongInteger : Value → Prop where
  | int {value : Int} (long : Decimal.integerDigitLimit < (Text.decimal value.natAbs).length) :
      HoldsLongInteger (.int value)
  | list {items : List Value} (member : item ∈ items)
      (holds : HoldsLongInteger item) :
      HoldsLongInteger (.list origin items)
  | object {entries : List (Key × Value)}
      (member : entry ∈ entries) (holds : HoldsLongInteger entry.2) :
      HoldsLongInteger (.object origin entries)

theorem holdsLongInteger_list_iff :
    (∃ item ∈ items, HoldsLongInteger item) ↔ HoldsLongInteger (.array items) := by
  constructor
  · rintro ⟨item, mem, holds⟩
    exact .list mem holds
  · rintro (_ | ⟨mem, holds⟩)
    exact ⟨_, mem, holds⟩

theorem holdsLongInteger_object_iff :
    (∃ entry ∈ entries, HoldsLongInteger entry.2) ↔ HoldsLongInteger (.record entries) := by
  constructor
  · rintro ⟨entry, mem, holds⟩
    exact .object mem holds
  · rintro (_ | _ | ⟨mem, holds⟩)
    exact ⟨_, mem, holds⟩

/-- Somewhere inside the value stands an entry without a key. -/
inductive LacksKey : Value → Prop where
  | here {entries : List (Key × Value)}
      (lacks : Key.missing ∈ entries.map Prod.fst) :
      LacksKey (.object origin entries)
  | list {items : List Value} (member : item ∈ items)
      (lacks : LacksKey item) :
      LacksKey (.list origin items)
  | object {entries : List (Key × Value)}
      (member : entry ∈ entries) (lacks : LacksKey entry.2) :
      LacksKey (.object origin entries)

theorem lacksKey_list_iff : LacksKey (.array items) ↔ ∃ item ∈ items, LacksKey item := by
  constructor
  · rintro (_ | ⟨mem, lacks⟩)
    exact ⟨_, mem, lacks⟩
  · rintro ⟨item, mem, lacks⟩
    exact .list mem lacks

theorem lacksKey_object_iff :
    LacksKey (.record entries) ↔ ∃ entry ∈ entries, entry.1 = .missing ∨ LacksKey entry.2 := by
  constructor
  · rintro (missing | _ | ⟨mem, lacks⟩)
    · obtain ⟨entry, mem, isMissing⟩ := mem_map.mp missing
      exact ⟨entry, mem, .inl isMissing⟩
    · exact ⟨_, mem, .inr lacks⟩
  · rintro ⟨entry, mem, isMissing | lacks⟩
    · exact .here (mem_map.mpr ⟨entry, mem, isMissing⟩)
    · exact .object mem lacks

theorem not_lacksKey_of_isDocument (isDocument : IsDocument value) : ¬ LacksKey value := by
  induction isDocument with
  | list _ ih =>
    rintro (_ | ⟨mem, lacks⟩)
    exact ih _ mem lacks
  | object named _ _ ih =>
    rintro (missing | _ | ⟨mem, lacks⟩)
    · exact named missing
    · exact ih _ mem lacks
  | _ => rintro ⟨⟩

/-- Values like documents, whose entries may lack a key if the style leaves them in their order. -/
inductive IsWritable (style : Style) : Value → Prop where
  | null : IsWritable style .null
  | bool (value : Bool) : IsWritable style (.bool value)
  | int (value : Int) : IsWritable style (.int value)
  | text (value : String) : IsWritable style (.text value)
  | list {items : List Value} (each : ∀ item ∈ items, IsWritable style item) :
      IsWritable style (.array items)
  | object {entries : List (Key × Value)}
      (named : style.sortKeys = true → Key.missing ∉ entries.map Prod.fst)
      (unique : (entries.map Prod.fst).Nodup) (each : ∀ entry ∈ entries, IsWritable style entry.2) :
      IsWritable style (.record entries)

theorem IsDocument.isWritable (isDocument : IsDocument value) (style : Style) :
    IsWritable style value := by
  induction isDocument with
  | null => exact .null
  | bool value => exact .bool value
  | int value => exact .int value
  | text value => exact .text value
  | list _ ih => exact .list ih
  | object named unique _ ih => exact .object (fun _ => named) unique ih

/-- The value whose text a style writes. -/
def Style.order (style : Style) (value : Value) : Value :=
  if style.sortKeys then value.inKeyOrder else value

/-- The entries in the order in which a style writes them. -/
def Style.orderEntries {α : Type} (style : Style) (entries : List (Key × α)) : List (Key × α) :=
  if style.sortKeys then
    entries.mergeSort fun left right => left.1.shown ≤ right.1.shown
  else entries

theorem Style.order_list (style : Style) (items : List Value) :
    style.order (.array items) = .array (items.map style.order) := by
  unfold Style.order
  split
  · rw [Value.inKeyOrder, itemsInKeyOrder_eq_map]
  · rw [map_id']

theorem Style.order_object (style : Style) (entries : List (Key × Value)) :
    style.order (.record entries) =
      .record (style.orderEntries (entries.map fun entry => (entry.1, style.order entry.2))) := by
  unfold Style.order Style.orderEntries
  split
  · rw [Value.inKeyOrder, entriesInKeyOrder_eq_map]
  · rw [map_id']

/-! ## Layout -/

theorem areBlank_padding (indent level : Nat) : AreBlank (padding indent level).toList := by
  intro char mem
  rw [padding, String.toList_ofList] at mem
  rw [eq_of_mem_replicate mem]
  decide

/-- The blanks that a style puts around the parts of a list or an object at a depth. -/
def Style.spacing (style : Style) (level : Nat) : Spacing :=
  match style.indent with
  | none =>
    { gap := [], margin := [], tail := []
      gapBlank := by simp [AreBlank]
      marginBlank := by simp [AreBlank]
      tailBlank := by simp [AreBlank] }
  | some indent =>
    { gap := ['\n']
      margin := (padding indent (level + 1)).toList
      tail := '\n' :: (padding indent level).toList
      gapBlank := by simp [AreBlank, isBlank]
      marginBlank := areBlank_padding indent (level + 1)
      tailBlank := by
        intro character member
        rcases mem_cons.mp member with rfl | inPadding
        · decide
        · exact areBlank_padding indent level character inPadding }

/-- Parts between brackets stand in the spacing of the style. -/
theorem toList_enclose (style : Style) (level : Nat) (opening closing : String)
    (notEmpty : parts ≠ []) : (enclose style level opening closing parts).toList =
      opening.toList ++
        ((style.spacing level).around (parts.map String.toList) ++ closing.toList) := by
  have notNil : parts.isEmpty = false := by simpa using notEmpty
  unfold enclose Style.spacing
  cases style.indent with
  | none | some indent =>
    simp [notNil, Spacing.around, String.toList_intercalate, Function.comp_def]

theorem reads_enclose_list (style : Style) (level : Nat) {outcomes : List (Option Value)}
    (reads : Forall₂ (fun part outcome => Reads part.toList outcome) parts outcomes) :
    Reads (enclose style level "[" "]" parts).toList ((outcomes.mapM id).map .array) := by
  by_cases isEmpty : parts = []
  · subst isEmpty
    cases reads
    have shape : (enclose style level "[" "]" []).toList = ['[', ']'] := by simp [enclose]
    rw [shape]
    exact Reads.emptyList
  · rw [toList_enclose style level "[" "]" isEmpty]
    exact Reads.list _ (forall₂_map_left_iff.mpr reads) (by simpa using isEmpty)

theorem reads_enclose_object (style : Style) (level : Nat) {outcomes : List (Option (Key × Value))}
    (reads : Forall₂ (fun part outcome => ReadsEntry part.toList outcome) parts outcomes)
    (unique : ∀ entries, outcomes.mapM id = some entries → (entries.map Prod.fst).Nodup) :
    Reads (enclose style level "\x7b" "\x7d" parts).toList ((outcomes.mapM id).map .record) := by
  by_cases isEmpty : parts = []
  · subst isEmpty
    cases reads
    have shape : (enclose style level "\x7b" "\x7d" []).toList = ['{', '}'] := by simp [enclose]
    rw [shape]
    exact Reads.emptyObject
  · rw [toList_enclose style level "\x7b" "\x7d" isEmpty]
    exact Reads.object _ (forall₂_map_left_iff.mpr reads) (by simpa using isEmpty) unique

/-! ## Sorting entries -/

/-- Entries may be changed before they are sorted or after. -/
theorem orderEntries_map (style : Style) (change : Key × α → β) (entries : List (Key × α)) :
    style.orderEntries (entries.map fun entry => (entry.1, change entry)) =
      (style.orderEntries entries).map fun entry => (entry.1, change entry) := by
  unfold Style.orderEntries
  split
  · symm
    apply map_mergeSort
    intro left _ right _
    rfl
  · rfl

theorem orderEntries_perm (style : Style) (entries : List (Key × α)) :
    (style.orderEntries entries).Perm entries := by
  unfold Style.orderEntries
  split
  · exact mergeSort_perm _ _
  · exact Perm.refl _

/-- Entries are arranged without fail if all have keys or if they need not be sorted. -/
theorem arranged_of_named (style : Style) {entries : List (Key × α)}
    (named : style.sortKeys → Key.missing ∉ entries.map Prod.fst) :
    arranged style entries = .ok (style.orderEntries entries) := by
  unfold arranged Style.orderEntries
  split
  case isTrue sorts =>
    have noMissing : entries.any (·.1 == .missing) = false := by
      rw [any_eq_false]
      intro entry mem isMissing
      exact named sorts (mem_map.mpr ⟨entry, mem, by simpa using isMissing⟩)
    simp only [sortEntries, noMissing, Bool.and_false, Bool.false_eq_true, if_false,
      orderTexts_ne_gt]
  · rfl

/-! ## What is read back -/

open Classical in
/-- What the text of a value is read as: nothing if a key is missing. -/
noncomputable def Style.readBack (style : Style) (value : Value) : Option Value :=
  if LacksKey value then none else some (style.order value)

open Classical in
/-- What the text of an entry is read as. -/
noncomputable def Style.readBackEntry (style : Style) (entry : Key × Value) :
    Option (Key × Value) :=
  if entry.1 = .missing ∨ LacksKey entry.2 then none else some (entry.1, style.order entry.2)

theorem mapM_map_ite (fails : α → Prop) [DecidablePred fails] (change : α → β) (items : List α) :
    (items.map fun item => if fails item then none else some (change item)).mapM id =
      if ∃ item ∈ items, fails item then none else some (items.map change) := by
  induction items with
  | nil => simp
  | cons item rest =>
    by_cases fails item <;> by_cases ∃ other ∈ rest, fails other <;> simp [*]

theorem Style.readBack_scalar (style : Style) (complete : ¬ LacksKey value)
    (same : value.inKeyOrder = value) :
    style.readBack value = some value := by
  rw [Style.readBack, if_neg complete, Style.order, same, ite_self]

theorem Style.readBack_of_isDocument (style : Style) (isDocument : IsDocument value) :
    style.readBack value = some (style.order value) :=
  if_neg (not_lacksKey_of_isDocument isDocument)

theorem Style.readBack_list (style : Style) (items : List Value) :
    style.readBack (.array items) = ((items.map style.readBack).mapM id).map .array := by
  unfold Style.readBack
  rw [mapM_map_ite, Style.order_list, lacksKey_list_iff]
  split <;> rfl

theorem Style.readBack_object (style : Style) (entries : List (Key × Value)) :
    style.readBack (.record entries) =
      (((style.orderEntries entries).map style.readBackEntry).mapM id).map .record := by
  have permuted := orderEntries_perm style entries
  have same :
      LacksKey (.record entries) ↔
        ∃ entry ∈ style.orderEntries entries, entry.1 = .missing ∨ LacksKey entry.2 := by
    simp only [lacksKey_object_iff, permuted.mem_iff]
  unfold Style.readBack Style.readBackEntry
  rw [mapM_map_ite, Style.order_object, orderEntries_map]
  by_cases lacks : LacksKey (.record entries)
  · rw [if_pos lacks, if_pos (same.mp lacks), Option.map_none]
  · rw [if_neg lacks, if_neg (mt same.mpr lacks), Option.map_some]

/-! ## Writing -/

/-- A writer refuses what holds a long integer, and nothing else, and leaves what is asked of it
otherwise. -/
def Settled {α : Type} (isLong : Prop) (asked : α → Prop) : Except Fault α → Prop
  | .ok result => ¬ isLong ∧ asked result
  | .error fault => isLong ∧ fault = .defect .domain

namespace Settled

variable {α β : Type} {isLong : Prop} {asked : α → Prop}

theorem done (shape : result = .ok found) (short : ¬ isLong) (fine : asked found) :
    Settled isLong asked result := by
  rw [shape]
  exact ⟨short, fine⟩

theorem bind {result : Except Fault α} {nextLong : Prop}
    {nextAsked : β → Prop} {next : α → Except Fault β} (settled : Settled isLong asked result)
    (goesOn : ∀ found, result = .ok found → asked found → Settled nextLong nextAsked (next found)) :
    Settled (isLong ∨ nextLong) nextAsked (result >>= next) := by
  cases result with
  | error => exact ⟨.inl settled.1, settled.2⟩
  | ok found =>
    have rest := goesOn found rfl settled.2
    change Settled _ _ (next found)
    cases found : next found with
    | error =>
      rw [found] at rest
      exact ⟨.inr rest.1, rest.2⟩
    | ok =>
      rw [found] at rest
      exact ⟨fun long => long.elim settled.1 rest.1, rest.2⟩

theorem map {result : Except Fault α} {change : α → β} {nextAsked : β → Prop}
    (settled : Settled isLong asked result)
    (goesOn : ∀ found, asked found → nextAsked (change found)) :
    Settled isLong nextAsked (do return change (← result)) := by
  cases result with
  | error => exact settled
  | ok found => exact ⟨settled.1, goesOn found settled.2⟩

theorem congr (settled : Settled isLong asked result) (same : isLong ↔ other) :
    Settled other asked result := by
  rw [← propext same]
  exact settled

end Settled

/-- The writer of a value at every depth refuses it or writes a text that is read back. -/
def IsWrittenBack (style : Style) (value : Value) : Prop :=
  ∀ level, Settled (HoldsLongInteger value)
    (fun text => Reads text.toList (style.readBack value)) (writeSimple style level value)

theorem settled_writeItems (style : Style) (level : Nat)
    (each : ∀ item ∈ items, IsWrittenBack style item) :
    Settled (∃ item ∈ items, HoldsLongInteger item)
      (fun texts =>
        Forall₂ (fun text item => Reads text.toList (style.readBack item)) texts items)
      (writeItems style level items) := by
  induction items with
  | nil => exact ⟨by simp, .nil⟩
  | cons item rest ih =>
    have restSettled := ih (forall_mem_cons.mp each).2
    have sameLong :
        (HoldsLongInteger item ∨ ∃ other ∈ rest, HoldsLongInteger other) ↔
          ∃ other ∈ item :: rest, HoldsLongInteger other := by
      simp
    refine Settled.congr ((each item mem_cons_self level).bind ?_) sameLong
    intro text _ reads
    refine restSettled.map ?_
    intro texts readsRest
    exact .cons reads readsRest

/-- The text of an entry: its key, a colon with a blank or without, and the text of its value. -/
def entryText (style : Style) (level : Nat) (entry : Key × Value) : String :=
  keyText style entry.1 ++ keySeparator style ++ (writeSimple style level entry.2).toOption.getD ""

theorem readsEntry_of_reads (style : Style) (key : Key)
    (reads : Reads text.toList (style.readBack value)) :
    ReadsEntry (keyText style key ++ keySeparator style ++ text).toList
      (style.readBackEntry (key, value)) := by
  cases key with
  | missing =>
    have shape :
        (keyText style .missing ++ keySeparator style ++ text).toList =
          'n' :: ("ull" ++ keySeparator style ++ text).toList := by
      simp [keyText]
    rw [shape]
    exact .unquoted (by decide) (by decide) (by decide) _
  | text name =>
    have blank : AreBlank (if style.indent.isSome then [' '] else []) := by
      split <;> simp [AreBlank, isBlank]
    have shape :
        (keyText style (.text name) ++ keySeparator style ++ text).toList =
          (quote style.asciiOnly name).toList ++
            ':' :: ((if style.indent.isSome then [' '] else []) ++ text.toList) := by
      unfold keySeparator
      split <;> simp [keyText]
    have same :
        style.readBackEntry (.text name, value) = (style.readBack value).map (.text name, ·) := by
      by_cases lacks : LacksKey value <;> simp [Style.readBackEntry, Style.readBack, lacks]
    rw [shape, same]
    exact reads.entry style.asciiOnly name blank

theorem settled_writeEntries (style : Style) (level : Nat)
    (each : ∀ entry ∈ entries, IsWrittenBack style entry.2) :
    Settled (∃ entry ∈ entries, HoldsLongInteger entry.2)
      (fun parts => parts = entries.map (fun entry => (entry.1, entryText style level entry)) ∧
        ∀ entry ∈ entries,
          ReadsEntry (entryText style level entry).toList (style.readBackEntry entry))
      (writeEntries style level entries) := by
  induction entries with
  | nil => exact ⟨by simp, rfl, by simp⟩
  | cons entry rest ih =>
    have restSettled := ih (forall_mem_cons.mp each).2
    obtain ⟨key, value⟩ := entry
    have sameLong :
        (HoldsLongInteger value ∨ ∃ other ∈ rest, HoldsLongInteger other.2) ↔
          ∃ other ∈ (key, value) :: rest, HoldsLongInteger other.2 := by
      simp
    refine Settled.congr ((each _ mem_cons_self level).bind ?_) sameLong
    intro text written reads
    have isText :
        entryText style level (key, value) = keyText style key ++ keySeparator style ++ text := by
      rw [entryText, written]
      rfl
    refine restSettled.map ?_
    rintro _ ⟨rfl, readsRest⟩
    refine ⟨by rw [map_cons, isText], forall_mem_cons.mpr ⟨?_, readsRest⟩⟩
    rw [isText]
    exact readsEntry_of_reads style key reads

theorem reads_object (style : Style) (level : Nat) {write : Key × Value → String}
    (reads : ∀ entry ∈ style.orderEntries entries,
      ReadsEntry (write entry).toList (style.readBackEntry entry))
    (unique : (entries.map Prod.fst).Nodup) :
    Reads (enclose style level "\x7b" "\x7d" ((style.orderEntries entries).map write)).toList
      (style.readBack (.record entries)) := by
  rw [Style.readBack_object]
  refine reads_enclose_object style level ?_ ?_
  · rwa [forall₂_map_left_iff, forall₂_map_right_iff, forall₂_same]
  · intro found areRead
    unfold Style.readBackEntry at areRead
    rw [mapM_map_ite] at areRead
    split at areRead
    · cases areRead
    · cases areRead
      rw [map_map]
      exact ((orderEntries_perm style entries).map Prod.fst).nodup_iff.mpr unique

theorem isWrittenBack_of_isWritable (writable : IsWritable style value) :
    IsWrittenBack style value := by
  intro level
  induction writable generalizing level with
  | null =>
    rw [style.readBack_scalar (by rintro ⟨⟩) rfl]
    exact .done rfl (by rintro ⟨⟩) Reads.null
  | bool value =>
    rw [style.readBack_scalar (by rintro ⟨⟩) rfl]
    exact .done rfl (by rintro ⟨⟩) (Reads.bool value)
  | int value =>
    rw [style.readBack_scalar (by rintro ⟨⟩) rfl]
    -- An integer is refused if it is long, and else read back from its digits.
    change Settled _ _ (integer value)
    simp only [integer, Decimal.isLong, decide_eq_true_eq]
    split
    · rename_i long
      exact ⟨.int long, rfl⟩
    · rename_i short
      refine ⟨?_, Reads.int (Nat.le_of_not_lt short)⟩
      rintro (long | _ | _)
      exact short long
  | text value =>
    rw [style.readBack_scalar (by rintro ⟨⟩) rfl]
    exact .done rfl (by rintro ⟨⟩) (Reads.text style.asciiOnly value)
  | @list _ _ ih =>
    have written := settled_writeItems style (level + 1) ih
    rw [Style.readBack_list]
    refine Settled.congr (written.map ?_) holdsLongInteger_list_iff
    intro texts reads
    exact reads_enclose_list style level (forall₂_map_right_iff.mpr reads)
  | @object entries named unique _ ih =>
    have written := settled_writeEntries style (level + 1) ih
    refine Settled.congr (written.bind ?_) (by rw [or_false, holdsLongInteger_object_iff])
    rintro _ _ ⟨rfl, reads⟩
    rw [arranged_of_named style (by simpa using named), orderEntries_map]
    refine .done rfl not_false ?_
    rw [map_map]
    exact reads_object style level
      (fun entry mem => reads entry ((orderEntries_perm style entries).mem_iff.mp mem)) unique

/-! ## Whole values -/

/-- What holds no XML node has nothing to be simplified. -/
theorem simplifyAll_of_each (each : ∀ item ∈ items, simplify item = .ok item) :
    simplifyAll items = .ok items := by
  induction items with
  | nil => rfl
  | cons item _ ih =>
    have restSame := ih (forall_mem_cons.mp each).2
    rw [simplifyAll, each item mem_cons_self, restSame]
    rfl

theorem simplifyEntries_of_each (each : ∀ entry ∈ entries, simplify entry.2 = .ok entry.2) :
    simplifyEntries entries = .ok entries := by
  induction entries with
  | nil => rfl
  | cons entry _ ih =>
    have restSame := ih (forall_mem_cons.mp each).2
    rw [simplifyEntries, each entry mem_cons_self, restSame]
    rfl

theorem simplify_of_isWritable (writable : IsWritable style value) :
    simplify value = .ok value := by
  induction writable with
  | list _ ih =>
    rw [simplify, simplifyAll_of_each ih]
    rfl
  | object _ _ _ ih =>
    rw [simplify, simplifyEntries_of_each ih]
    rfl
  | _ => rfl

theorem repetitions_of_isWritable (each : ∀ entry ∈ entries, IsWritable style entry.2) :
    entries.flatMap repetitions = entries := by
  induction entries with
  | nil => rfl
  | cons entry _ ih =>
    have restSame := ih (forall_mem_cons.mp each).2
    obtain ⟨key, value⟩ := entry
    have once : repetitions (key, value) = [(key, value)] := by
      have writable := each (key, value) mem_cons_self
      cases writable <;> rfl
    rw [flatMap_cons, once, restSame, singleton_append]

/-- Every writable value is refused, or written as a text that is read back. -/
theorem settled_write (writable : IsWritable style value) :
    Settled (HoldsLongInteger value) (fun text => Reads text.toList (style.readBack value))
      (write style value) := by
  have nested := isWrittenBack_of_isWritable writable 0
  cases writable with
  | null | bool value | int value | text value => exact nested
  | list each =>
    have simple := simplifyAll_of_each fun item mem => simplify_of_isWritable (each item mem)
    rw [write, simple]
    exact nested
  | @object entries named unique each =>
    by_cases isEmpty : entries = []
    · subst isEmpty
      have same : write style (.record []) = writeSimple style 0 (.record []) := by
        simp [write, writeSimple, writeEntries, arranged_of_named, Style.orderEntries, bind,
          Except.bind, pure, Except.pure, enclose]
      rwa [same]
    · have permuted := orderEntries_perm style entries
      have eachOrdered : ∀ entry ∈ style.orderEntries entries, IsWritable style entry.2 :=
        fun entry mem => each entry (permuted.mem_iff.mp mem)
      have simple :=
        simplifyEntries_of_each fun entry mem =>
          simplify_of_isWritable (eachOrdered entry mem)
      have written :=
        settled_writeEntries style 1 fun entry mem =>
          isWrittenBack_of_isWritable (eachOrdered entry mem)
      have sameLong :
          (∃ entry ∈ style.orderEntries entries, HoldsLongInteger entry.2) ↔
            HoldsLongInteger (.record entries) := by
        rw [← holdsLongInteger_object_iff]
        simp only [permuted.mem_iff]
      have notNil : entries.isEmpty = false := by simpa using isEmpty
      have shape :
          write style (.record entries) =
            (do
              let parts ← writeEntries style 1 (style.orderEntries entries)
              return write.brackets style "\x7b" "\x7d" (parts.map (·.2))) := by
        rw [write]
        simp only [notNil, arranged_of_named style named]
        change
          (do
            let simple ← simplifyEntries ((style.orderEntries entries).flatMap repetitions)
            let parts ← writeEntries style 1 simple
            return write.brackets style "\x7b" "\x7d" (parts.map Prod.snd)) = _
        rw [repetitions_of_isWritable eachOrdered, simple]
        rfl
      rw [shape]
      refine Settled.congr (written.map ?_) sameLong
      rintro _ ⟨rfl, reads⟩
      have enclosed :
          write.brackets style "\x7b" "\x7d"
              ((style.orderEntries entries).map (entryText style 1)) =
            enclose style 0 "\x7b" "\x7d"
              ((style.orderEntries entries).map (entryText style 1)) := by
        unfold write.brackets
        split
        · rw [map_eq_nil_iff] at *
          exact absurd (nil_perm.mp (‹_› ▸ permuted)) isEmpty
        · rfl
      rw [map_map]
      exact enclosed ▸ reads_object style 0 reads unique

end Json

namespace Format

/-- The indentation that an option without a value or with an integer asks for. -/
theorem indentOf_eq_ok (indent : options.getD "indent" .null = .null ∨
      ∃ count : Int, options.getD "indent" .null = .int count) :
    ∃ blanks, indentOf options = .ok blanks := by
  unfold indentOf
  rcases indent with isNull | ⟨count, isCount⟩
  · exact ⟨none, by rw [isNull]⟩
  · exact ⟨if count < 0 then none else some count.toNat, by rw [isCount]; rfl⟩

theorem writeNamed_json_of_write (indent : indentOf options = .ok blanks)
    (written :
      Json.write ⟨blanks, options.flag "ensure_ascii" true, options.flag "sort_keys" false⟩ value =
        .ok text) :
    writeNamed "json" options value = .ok (.text text) := by
  have isJson : named? "json" = some .json := by decide
  have writes : writeJson options value = .ok (.text text) := by
    rw [writeJson, indent]
    simp only [bind, Except.bind, written]
    rfl
  simp only [writeNamed, isJson, write, writes]

theorem readNamed_json_of_reads (options : Options) {outcome : Option Value}
    (reads : Json.Reads text.toList outcome) :
    readNamed "json" options (.text text) =
      outcome.elim (.error (.reading "json" (.defect .badJson))) .ok := by
  have asText : readJson options (.text text) = causedByDefect (Json.read text.toList) := rfl
  simp only [readNamed, read, asText, reads.read]
  cases outcome <;> rfl

/--
A document is read back from its JSON text, whatever the layout: as it is, or with the entries of
all its objects in the order of their keys if the keys are sorted.  A document that holds an
integer too long to be read is not written at all.
-/
theorem readNamed_of_writeNamed_json {document : Value} (isDocument : Json.IsDocument document)
    (writing reading : Options) (indent : writing.getD "indent" .null = .null ∨
      ∃ count : Int, writing.getD "indent" .null = .int count) :
    (¬ Json.HoldsLongInteger document →
      ∃ text,
        writeNamed "json" writing document = .ok (.text text) ∧
          readNamed "json" reading (.text text) =
            .ok (if writing.flag "sort_keys" false then document.inKeyOrder else document)) ∧
      (Json.HoldsLongInteger document →
        writeNamed "json" writing document = .error (.writing "json" (.defect .domain))) := by
  have isJson : named? "json" = some .json := by decide
  obtain ⟨blanks, indentShape⟩ := indentOf_eq_ok indent
  have settled :=
    Json.settled_write
      (isDocument.isWritable
        ⟨blanks, writing.flag "ensure_ascii" true, writing.flag "sort_keys" false⟩)
  have styled :
      writeJson writing document =
        (do
          return .text
            (← causedBy
              (Json.write
                ⟨blanks, writing.flag "ensure_ascii" true, writing.flag "sort_keys" false⟩
                document))) := by
    rw [writeJson, indentShape]
    rfl
  simp only [writeNamed, isJson, write, styled]
  cases written :
      Json.write
        ⟨blanks, writing.flag "ensure_ascii" true, writing.flag "sort_keys" false⟩ document with
  | error =>
    rw [written] at settled
    obtain ⟨long, rfl⟩ := settled
    exact ⟨fun short => absurd long short, fun _ => rfl⟩
  | ok text =>
    rw [written] at settled
    obtain ⟨short, reads⟩ := settled
    refine ⟨fun _ => ⟨text, rfl, ?_⟩, fun long => absurd long short⟩
    rw [readNamed_json_of_reads reading reads, Json.Style.readBack_of_isDocument _ isDocument]
    rfl

/-- A small order with its positions out of key order, written over several lines. -/
theorem readNamed_of_writeNamed_json_order : ∃ text,
      writeNamed "json" [(.text "indent", .int 2), (.text "sort_keys", .bool true)]
          (.record [(.text "size", .int (-12)), (.text "name", .array [.text "é\n", .null])]) =
        .ok (.text text) ∧
      readNamed "json" [] (.text text) =
        .ok (.record
          [(.text "name", .array [.text "é\n", .null]), (.text "size", .int (-12))]) := by
  have isDocument :
      Json.IsDocument
        (.record [(.text "size", .int (-12)), (.text "name", .array [.text "é\n", .null])]) := by
    refine .object (by decide) (by decide) ?_
    simp only [List.mem_cons, List.not_mem_nil, or_false, forall_eq_or_imp, forall_eq]
    refine ⟨.int _, .list ?_⟩
    simp only [List.mem_cons, List.not_mem_nil, or_false, forall_eq_or_imp, forall_eq]
    exact ⟨.text _, .null⟩
  have short :
      ¬ Json.HoldsLongInteger
        (.record [(.text "size", .int (-12)), (.text "name", .array [.text "é\n", .null])]) := by
    simp only [← Json.holdsLongInteger_object_iff, List.mem_cons, List.not_mem_nil, or_false,
      exists_eq_or_imp, exists_eq_left, ← Json.holdsLongInteger_list_iff]
    rintro ((long | _ | _) | ⟨⟨⟩⟩ | ⟨⟨⟩⟩)
    revert long
    decide
  have sorted :
      (Value.record
        [(.text "size", .int (-12)), (.text "name", .array [.text "é\n", .null])]).inKeyOrder =
        .record [(.text "name", .array [.text "é\n", .null]), (.text "size", .int (-12))] := by
    have behind : ¬ "size" ≤ "name" := by decide
    simp [Value.inKeyOrder, entriesInKeyOrder, itemsInKeyOrder, List.mergeSort, Key.shown, behind]
  rw [← sorted]
  exact (readNamed_of_writeNamed_json isDocument _ [] (.inr ⟨2, rfl⟩)).1 short

end Format

end Weave
