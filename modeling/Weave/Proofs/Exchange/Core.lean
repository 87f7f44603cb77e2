import Weave.Builtin.Run
import Weave.Proofs.Exchange.Parts

namespace Weave

open List

/-!
# Built-in functions that call no functions

What they leave for arguments that look the same looks the same: numbers, texts and truth values are
the same, and parts of the arguments look the same.  Those that compare values do so if functions
need not be told apart.
-/

namespace Core

open Value Likeness

variable {like : Likeness} {left right otherLeft otherRight : Value} {items others : List Value}
  {entries otherEntries : Entries}

/-! ## Lists that are related item by item -/

theorem any_of_same {items others : List α}
    (tests : ∀ item other, rel item other → test item = otherTest other)
    (same : Forall₂ rel items others) :
    items.any test = others.any otherTest := by
  induction same with
  | nil => rfl
  | cons sameFirst _ ih => rw [any_cons, any_cons, tests _ _ sameFirst, ih]

theorem isEmpty_of_forall₂ {items others : List α} (same : Forall₂ rel items others) :
    items.isEmpty = others.isEmpty := by
  cases same <;> rfl

/-- Items that look the same lead to the same where each two do. -/
theorem mapM_of_same {α : Type} {compute : Value → Except Fault α}
    (kept : ∀ {item other}, like.Same item other → compute item = compute other)
    (same : Forall₂ like.Same items others) :
    items.mapM compute = others.mapM compute := by
  refine Alongside.eq_iff.mp ?_
  rw [← forall₂_eq_eq_eq]
  exact .mapM (fun item other sameItem => Alongside.eq_iff.mpr (kept sameItem)) same

/-! ## Members that may be compared -/

theorem data_of_mem_items (isData : left.holdsFunction = false) :
    Leaves (fun items => ∀ item ∈ items, item.holdsFunction = false) left.items := by
  have parts := data_of_mem_parts isData
  cases left with
  | list | tuple | object => exact .ok parts
  | null => exact .ok (by simp)
  | text => exact .ok (by simp [characters, Value.holds, isFunction])
  | bytes data | buffer data => exact .ok (by simp [byteNumbers, Value.holds, isFunction])
  | _ => exact .error _

theorem isScalar_toValue (key : Key) : key.toValue.isScalar := by
  cases key <;> rfl

theorem members_along (same : like.Same left right) :
    Alongside (Forall₂ like.Same) left.members right.members := by
  have along := items_along same
  cases alike_of_same same with
  | null => exact .error _
  | object _ sameEntries =>
    refine .ok (rel_map (fun entry other sameEntry => ?_) sameEntries)
    rw [key_of_same sameEntry]
    exact same_of_isScalar (isScalar_toValue _)
  | _ => exact along

theorem data_of_mem_members (isData : left.holdsFunction = false) :
    Leaves (fun members => ∀ mem ∈ members, mem.holdsFunction = false) left.members := by
  have inItems := data_of_mem_items isData
  cases left with
  | null => exact .error _
  | object => exact .ok (forall_mem_map.mpr fun entry _ => by cases entry.1 <;> rfl)
  | _ => exact inItems

/-- The items look the same and may be compared with a value. -/
theorem comparable_items_along (same : like.Same left right)
    (comparable : like.Comparable left wanted) :
    Alongside (Forall₂ fun item other => like.Comparable item wanted ∧ like.Same item other)
      left.items right.items := by
  refine (items_along same).and fun items found item mem => ?_
  exact comparable.imp_right (.imp_left fun isData =>
    data_of_mem_items isData items found item mem)

/-! ## Numbers -/

theorem checkedPeriod_along (period : Calendar.Period) :
    Alongside like.Same (checkedPeriod period) (checkedPeriod period) := by
  unfold checkedPeriod
  split
  · exact scalar_along rfl
  · exact .error _

section

variable (same : like.Same left right)

include same

theorem absolute_along : Alongside like.Same (absolute left) (absolute right) := by
  cases alike_of_same same with
  | bool | int | float => exact scalar_along rfl
  | period => exact checkedPeriod_along _
  | _ => exact .error _

theorem floatsOf_of_same : floatsOf left = floatsOf right := by
  refine Alongside.eq_iff.mp (.bind (members_along same) fun members others sameMembers => ?_)
  exact Alongside.eq_iff.mpr (mapM_of_same (eq_of_kept toFloat_onFunctions) sameMembers)

theorem total_along : Alongside like.Same (total left) (total right) := by
  simp only [total, floatsOf_of_same same]
  refine .bind_same _ fun numbers => ?_
  split
  · exact scalar_along rfl
  · split
    · exact scalars_along (fun _ => rfl) _
    · exact scalar_along rfl

theorem average_along : Alongside like.Same (average left) (average right) := by
  simp only [average, floatsOf_of_same same]
  refine .bind_same _ fun numbers => ?_
  split
  · exact .error _
  · exact scalar_along rfl

theorem isNearWhole_of_same : isNearWhole left = isNearWhole right := by
  rw [isNearWhole, isNearWhole, toNumeral_of_same same]

theorem wholeOf_of_same : wholeOf left = wholeOf right := by
  rw [wholeOf, wholeOf, toNumeral_of_same same]

/-! ## Operators -/

theorem operand_of_same : operand left = operand right := by
  rw [operand, operand, eq_of_kept (typeName_onFunctions like.keeps) same,
    eq_of_kept (preview_onFunctions) same]

theorem same_orZero : like.Same (orZero left) (orZero right) := by
  rw [orZero, orZero, isTruthy_of_same same]
  split
  · exact same
  · exact same_of_isScalar rfl

theorem same_orOne : like.Same (orOne left) (orOne right) := by
  rw [orOne, orOne, isTruthy_of_same same]
  split
  · exact same
  · exact same_of_isScalar rfl

theorem timesNumber_along (factor : Number) :
    Alongside like.Same (timesNumber left factor) (timesNumber right factor) := by
  have repeated_along (count : Int) {items others : List Value}
      (same : Forall₂ like.Same items others) :
      Alongside (Forall₂ like.Same) (repeated count items) (repeated count others) := by
    unfold repeated
    split
    · exact .error _
    · refine .ok (rel_flatten ?_)
      induction count.toNat with
      | zero => exact .nil
      | succ _ ih => exact .cons same ih
  cases alike_of_same same with
  | period =>
    cases factor with
    | int => exact checkedPeriod_along _
    | float => exact .bind_same _ fun _ => checkedPeriod_along _
  | list _ sameItems =>
    cases factor with
    | int count =>
      exact .bind (repeated_along count sameItems) fun _ _ same => .ok (same_list _ same)
    | float => exact .error _
  | tuple sameItems =>
    cases factor with
    | int count =>
      exact .bind (repeated_along count sameItems) fun _ _ same => .ok (same_tuple same)
    | float => exact .error _
  | text | bytes | buffer =>
    cases factor with
    | int => exact scalars_along (fun _ => rfl) _
    | float => exact .error _
  | _ => cases factor <;> exact .error _

end

section

variable (sameLeft : like.Same left otherLeft) (sameRight : like.Same right otherRight)

include sameLeft sameRight

theorem range_along : Alongside like.Same (range left right) (range otherLeft otherRight) := by
  rw [range, wholeOf_of_same sameLeft, wholeOf_of_same sameRight]
  refine .bind_same _ fun first => .bind_same _ fun last => .ok (same_list _ ?_)
  exact same_scalars (fun _ => rfl) _

theorem plus_along (place : Option Position) :
    Alongside like.Same (plus left right place) (plus otherLeft otherRight place) := by
  have refused :
      Alongside like.Same
        (do throw (.refused (.badSum (← operand left) (← operand right) place) none))
        (do
          throw (.refused (.badSum (← operand otherLeft) (← operand otherRight) place) none)) := by
    rw [operand_of_same sameLeft, operand_of_same sameRight]
    exact .bind_same _ fun _ => .bind_same _ fun _ => .error _
  simp only [plus, number?_of_same sameLeft, number?_of_same sameRight]
  split
  · exact scalars_along isScalar_ofNumber _
  · cases alike_of_same sameLeft with
    | list _ sameItems => exact .ok (same_list _ (rel_append sameItems (.cons sameRight .nil)))
    | moment | date | clock =>
      cases alike_of_same sameRight with
      | period => exact scalars_along (fun _ => rfl) _
      | _ => exact refused
    | period =>
      cases alike_of_same sameRight with
      | moment | date | clock => exact scalars_along (fun _ => rfl) _
      | period => exact checkedPeriod_along _
      | _ => exact refused
    | _ => exact refused

theorem times_along : Alongside like.Same (times left right) (times otherLeft otherRight) := by
  have sameFirst := same_orZero sameLeft
  have sameSecond := same_orZero sameRight
  simp only [times, number?_of_same sameFirst, number?_of_same sameSecond]
  split
  · exact scalars_along isScalar_ofNumber _
  · exact timesNumber_along sameFirst _
  · exact timesNumber_along sameSecond _
  · exact .error _

theorem divide_along : Alongside like.Same (divide left right) (divide otherLeft otherRight) := by
  have sameFirst := same_orZero sameLeft
  have sameSecond := same_orOne sameRight
  simp only [divide, number?_of_same sameFirst, number?_of_same sameSecond]
  split
  · exact scalars_along isScalar_ofNumber _
  · generalize orZero left = first, orZero otherLeft = otherFirst at sameFirst
    generalize orOne right = second, orOne otherRight = otherSecond at sameSecond
    cases alike_of_same sameFirst with
    | period =>
      cases alike_of_same sameSecond with
      | period => exact scalar_along rfl
      | bool | int => exact checkedPeriod_along _
      | float => exact .bind_same _ fun _ => checkedPeriod_along _
      | _ => exact .error _
    | _ => exact .error _

theorem concat_along : Alongside like.Same (concat left right) (concat otherLeft otherRight) := by
  have joined :
      Alongside like.Same (do return .text ((← left.toText) ++ (← right.toText)))
        (do return .text ((← otherLeft.toText) ++ (← otherRight.toText))) := by
    rw [toText_of_same sameLeft, toText_of_same sameRight]
    exact .bind_same _ fun _ => scalars_along (fun _ => rfl) _
  cases alike_of_same sameLeft with
  | list _ sameItems =>
    cases alike_of_same sameRight with
    | list _ sameOthers => exact .ok (same_list _ (rel_append sameItems sameOthers))
    | _ => exact joined
  | object _ sameEntries =>
    cases alike_of_same sameRight with
    | object _ sameOthers => exact .ok (same_object _ (same_insertAll sameEntries sameOthers))
    | _ => exact joined
  | text | bytes | buffer =>
    cases alike_of_same sameRight with
    | text | bytes | buffer => exact scalar_along rfl
    | _ => exact joined
  | _ => exact joined

end

/-! ## Differences -/

theorem same_erase (same : Forall₂ like.SameEntry entries otherEntries) (key : Key) :
    Forall₂ like.SameEntry (entries.erase key) (otherEntries.erase key) :=
  rel_filter (fun entry other sameEntry => by simp only [key_of_same sameEntry]) same

theorem withoutKeys_along {keys : List Value}
    (same : Forall₂ like.SameEntry entries otherEntries)
    (sameKeys : Forall₂ like.Same keys otherKeys) :
    Alongside (Forall₂ like.SameEntry) (withoutKeys entries keys)
      (withoutKeys otherEntries otherKeys) := by
  refine .foldlM (fun entries others same key other sameKey => ?_) sameKeys same
  simp only [withoutKey, isEmpty_of_forall₂ same, requireMember_of_same sameKey,
    eq_of_kept keyOfValue?_onFunctions sameKey]
  split
  · exact .ok same
  · refine .bind_same _ fun _ => ?_
    split
    · exact .ok (same_erase same _)
    · exact .ok same

theorem withoutItems_along (same : Forall₂ like.Same items others)
    (sameRemoved : Forall₂ like.Same removed otherRemoved)
    (comparable : ∀ item ∈ items, ∀ other ∈ removed, like.Comparable item other) :
    Alongside (Forall₂ like.Same) (withoutItems items removed)
      (withoutItems others otherRemoved) := by
  have sameChecks : removed.forM requireMember = otherRemoved.forM requireMember := by
    clear comparable
    induction sameRemoved with
    | nil => rfl
    | cons sameFirst _ ih =>
      simp only [forM_eq_forM, forM_cons, requireMember_of_same sameFirst] at ih ⊢
      rw [ih]
  rw [withoutItems, sameChecks]
  refine .bind_same _ fun _ => ?_
  have tested := (forall₂_and_left _ _).mpr ⟨comparable, same⟩
  refine (Alongside.filterM (fun item other sameItem => ?_) tested).imp
    fun _ _ both => ((forall₂_and_left _ _).mp both).2
  have sameMember : removed.contains item = otherRemoved.contains other := by
    simp only [contains_eq_any_beq]
    exact any_of_same
      (fun value otherValue sameValue => beq_of_same sameItem.2 sameValue.2 sameValue.1)
      ((forall₂_and_left _ _).mpr ⟨sameItem.1, sameRemoved⟩)
  rw [requireMember_of_same sameItem.2, sameMember]

theorem diff_along (sameLeft : like.Same left otherLeft) (sameRight : like.Same right otherRight)
    (comparable : left.isList → like.Comparable left right) :
    Alongside like.Same (diff left right) (diff otherLeft otherRight) := by
  have sameText := toText_of_same sameRight
  cases alike_of_same sameLeft with
  | @list _ items _ sameItems =>
    have each : ∀ item ∈ items, ∀ other ∈ [right], like.Comparable item other := by
      intro item inItems
      simpa using (comparable rfl).leftPart inItems
    cases alike_of_same sameRight with
    | list _ sameRemoved =>
      refine .bind (withoutItems_along sameItems sameRemoved fun item inItems other inRemoved => ?_)
        fun _ _ same => .ok (same_list _ same)
      exact ((comparable rfl).leftPart inItems).rightPart inRemoved
    | _ =>
      exact .bind (withoutItems_along sameItems (.cons sameRight .nil) each)
        fun _ _ same => .ok (same_list _ same)
  | object _ sameEntries =>
    cases alike_of_same sameRight with
    | object _ sameRemoved =>
      refine .ok (same_object _ (rel_foldl (fun entries others same entry other sameEntry => ?_)
        sameEntries sameRemoved))
      obtain ⟨key, _⟩ := entry
      obtain ⟨_, _⟩ := other
      obtain rfl : key = _ := key_of_same sameEntry
      exact same_erase same key
    | list _ sameKeys =>
      exact .bind (withoutKeys_along sameEntries sameKeys) fun _ _ same => .ok (same_object _ same)
    | _ =>
      simp only [diff, sameText]
      exact .bind_same _ fun _ => .ok (same_object _ (same_erase sameEntries _))
  | text =>
    simp only [diff, sameText]
    exact scalars_along (fun _ => rfl) _
  | _ => exact .ok sameLeft

/-! ## Entries -/

theorem onEntries_along (name : String) {fn : Entries → Value} (along :
      ∀ {entries others}, Forall₂ like.SameEntry entries others →
        like.Same (fn entries) (fn others))
    (same : like.Same left right) :
    Alongside like.Same (onEntries name fn left) (onEntries name fn right) := by
  cases alike_of_same same with
  | null => exact scalar_along rfl
  | object _ sameEntries => exact .ok (along sameEntries)
  | _ => exact .error _

section

variable (same : Forall₂ like.SameEntry entries otherEntries)

include same

theorem same_keysOf : like.Same (keysOf entries) (keysOf otherEntries) := by
  refine same_list _ (rel_map (fun entry other sameEntry => ?_) same)
  rw [key_of_same sameEntry]
  exact same_of_isScalar (isScalar_toValue _)

theorem same_namesOf : like.Same (namesOf entries) (namesOf otherEntries) := by
  refine same_list _ (rel_map (fun entry other sameEntry => ?_) same)
  simp only [key_of_same sameEntry]
  exact same_of_isScalar rfl

theorem same_valuesOf : like.Same (valuesOf entries) (valuesOf otherEntries) :=
  same_list _ (same_values same)

theorem same_entriesOf : like.Same (entriesOf entries) (entriesOf otherEntries) := by
  refine same_list _ (rel_map (fun entry other sameEntry => same_object _ ?_) same)
  simp only [key_of_same sameEntry]
  exact .cons (same_entry rfl (same_of_isScalar (isScalar_toValue _)))
    (.cons (same_entry rfl (value_of_same sameEntry))
      (.cons (same_entry rfl (same_object _ .nil)) .nil))

end

theorem collapseAll_along (along : ∀ item ∈ items, ∀ {other}, like.Same item other →
        Alongside like.Same (collapse item) (collapse other))
    (same : Forall₂ like.Same items others) :
    Alongside (Forall₂ like.Same) (collapseAll items) (collapseAll others) := by
  induction same with
  | nil => exact .ok .nil
  | cons sameFirst _ ih =>
    rw [forall_mem_cons] at along
    refine .bind (along.1 sameFirst) fun found otherFound sameFound => ?_
    exact .bind (ih along.2) fun more otherMore sameMore => .ok (.cons sameFound sameMore)

theorem collapseChildren_along (along :
      ∀ item ∈ entries.map (·.2), ∀ {other}, like.Same item other →
        Alongside like.Same (collapse item) (collapse other))
    (same : Forall₂ like.SameEntry entries otherEntries) :
    Alongside (Forall₂ like.SameEntry) (collapseChildren entries)
      (collapseChildren otherEntries) := by
  induction same with
  | nil => exact .ok .nil
  | @cons entry other _ _ sameFirst _ ih =>
    rw [map_cons, forall_mem_cons] at along
    obtain ⟨key, _⟩ := entry
    obtain ⟨_, _⟩ := other
    obtain rfl : key = _ := key_of_same sameFirst
    cases key with
    | missing => exact .error _
    | text =>
      simp only [collapseChildren]
      split
      · exact ih along.2
      · refine .bind (along.1 (value_of_same sameFirst)) fun found otherFound sameFound => ?_
        exact .bind (ih along.2) fun more otherMore sameMore =>
          .ok (.cons (same_entry rfl sameFound) sameMore)

/-- What elements amount to looks the same if they do. -/
theorem collapse_along (same : like.Same left right) :
    Alongside like.Same (collapse left) (collapse right) := by
  induction left using Value.fromParts generalizing right with
  | step _ ih =>
    cases alike_of_same same with
    | list origin sameItems =>
      cases origin with
      | data => exact .ok same
      | xml =>
        exact .bind (collapseAll_along ih sameItems) fun _ _ sameFound =>
          .ok (same_list _ sameFound)
    | @object origin entries others sameEntries =>
      cases origin with
      | data => exact .ok same
      | xml =>
        have children :
            Alongside like.Same
              (do
                let children ← collapseChildren entries
                return if children.isEmpty then .null else .record children)
              (do
                let children ← collapseChildren others
                return if children.isEmpty then .null else .record children) := by
          refine .bind (collapseChildren_along ih sameEntries) fun found otherFound sameFound => ?_
          rw [isEmpty_of_forall₂ sameFound]
          split
          · exact scalar_along rfl
          · exact .ok (same_object _ sameFound)
        have sameText := same_find? sameEntries (.text textEntry)
        simp only [collapse]
        generalize entries.find? _ = text, others.find? _ = otherText at sameText
        cases sameText with
        | none => exact children
        | some sameText =>
          cases alike_of_same sameText with
          | null => exact children
          | _ => exact .ok sameText
    | _ => exact .ok same

theorem valueSet_along (same : like.Same left right) :
    Alongside like.Same (valueSet left) (valueSet right) := by
  cases alike_of_same same with
  | null => exact scalar_along rfl
  | object _ sameEntries =>
    refine .bind (.mapM (fun entry other sameEntry => ?_) sameEntries) fun _ _ sameFound =>
      .ok (same_list _ (rel_flatten sameFound))
    obtain ⟨_, _⟩ := entry
    obtain ⟨_, _⟩ := other
    have sameValue := value_of_same sameEntry
    have single := Alongside.bind (collapse_along sameValue) fun found otherFound sameFound =>
      .ok (Forall₂.cons sameFound .nil)
    cases alike_of_same sameValue with
    | list origin sameItems =>
      cases origin with
      | data => exact single
      | xml => exact collapseAll_along (fun _ _ _ => collapse_along) sameItems
    | _ => exact single
  | _ => exact .error _

theorem isNone_of_same {found other : Option Value} (same : Option.Rel like.Same found other) :
    found.isNone = other.isNone := by
  cases same <;> rfl

theorem mergeWith_along (sameLeft : like.Same left otherLeft)
    (sameRight : like.Same right otherRight) :
    Alongside like.Same (mergeWith left right) (mergeWith otherLeft otherRight) := by
  have plain {value other : Value} (same : like.Same value other) :
      Alongside like.Same (.ok (plainObject value)) (.ok (plainObject other)) := by
    cases alike_of_same same with
    | object _ sameEntries => exact .ok (same_object _ sameEntries)
    | _ => exact .ok same
  cases alike_of_same sameLeft with
  | null => exact plain sameRight
  | object _ sameSource =>
    cases alike_of_same sameRight with
    | null => exact plain sameLeft
    | object _ sameTarget =>
      refine .ok (same_object _ (rel_append (rel_filter ?_ sameSource) sameTarget))
      intro entry other sameEntry
      simp only [key_of_same sameEntry, isNone_of_same (same_find? sameTarget other.1)]
    | _ => exact .error _
  | _ =>
    cases alike_of_same sameRight with
    | null => exact .ok sameLeft
    | _ => exact .error _

/-! ## Texts -/

section

variable (same : like.Same left right)

include same

theorem onText_along (fn : String → String) :
    Alongside like.Same (onText (fun text => .text (fn text)) left)
      (onText (fun text => .text (fn text)) right) := by
  have sameText := toText_of_same same
  cases alike_of_same same with
  | null => exact scalar_along rfl
  | _ =>
    simp only [onText, sameText]
    exact scalars_along (fun _ => rfl) _

theorem isBlank_along : Alongside like.Same (isBlank left) (isBlank right) := by
  have sameText := toText_of_same same
  cases alike_of_same same with
  | null => exact scalar_along rfl
  | _ =>
    simp only [isBlank, sameText]
    exact scalars_along (fun _ => rfl) _

theorem textOrEmpty_of_same : textOrEmpty left = textOrEmpty right := by
  have sameText := toText_of_same same
  cases alike_of_same same with
  | null => rfl
  | _ => exact sameText

theorem patternIn_of_same : patternIn left = patternIn right := by
  rw [patternIn, patternIn, toText_of_same same]

theorem sizeOf_of_same : sizeOf left = sizeOf right := by
  have sameText := toText_of_same same
  cases alike_of_same same with
  | list _ sameItems | tuple sameItems | object _ sameItems =>
    exact congrArg Except.ok sameItems.length_eq
  | function => simp only [sizeOf, sameText]
  | _ => rfl

theorem isEmpty_of_same : isEmpty left = isEmpty right := by
  cases alike_of_same same with
  | list _ sameItems | tuple sameItems | object _ sameItems => exact isEmpty_of_forall₂ sameItems
  | _ => rfl

end

theorem isScalar_textOrNull (text? : Option (List Char)) : (textOrNull text?).isScalar := by
  cases text? <;> rfl

theorem isScalar_placeOrNone (place? : Option Nat) : (placeOrNone place?).isScalar := by
  cases place? <;> rfl

theorem same_counts (numbers : List Nat) : like.Same (counts numbers) (counts numbers) :=
  same_list _ (same_scalars (fun _ => rfl) numbers)

theorem same_splitAtText (text sep : String) :
    like.Same (splitAtText text sep) (splitAtText text sep) := by
  unfold splitAtText
  split
  · exact same_list _ (same_scalars (fun _ => rfl) _)
  · exact same_list _ (same_scalars (fun _ => rfl) _)

section

variable (sameLeft : like.Same left otherLeft) (sameRight : like.Same right otherRight)

include sameLeft sameRight

theorem joinBy_along : Alongside like.Same (joinBy left right) (joinBy otherLeft otherRight) := by
  cases alike_of_same sameLeft with
  | null => exact scalar_along rfl
  | list _ sameItems | tuple sameItems =>
    simp only [joinBy, textOrEmpty_of_same sameRight, mapM_of_same textOrEmpty_of_same sameItems]
    exact .bind_same _ fun _ => scalars_along (fun _ => rfl) _
  | _ => exact .error _

theorem groups_along : Alongside like.Same (groups left right) (groups otherLeft otherRight) := by
  have sameText := toText_of_same sameLeft
  unfold groups
  cases alike_of_same sameLeft with
  | null => exact .ok (same_list _ .nil)
  | _ =>
    simp only [patternIn_of_same sameRight, sameText]
    refine .bind_same _ fun pattern => .bind_same _ fun text => ?_
    split
    · exact .ok (same_list _ .nil)
    · exact .ok (same_list _ (.cons (same_of_isScalar rfl) (same_scalars isScalar_textOrNull _)))

theorem fullMatch_along :
    Alongside like.Same (fullMatch left right) (fullMatch otherLeft otherRight) := by
  have sameText := toText_of_same sameLeft
  unfold fullMatch
  cases alike_of_same sameLeft with
  | null => exact scalar_along rfl
  | _ =>
    simp only [patternIn_of_same sameRight, sameText]
    exact .bind_same _ fun _ => scalars_along (fun _ => rfl) _

theorem compareTexts_along (test : List Char → List Char → Bool) :
    Alongside like.Same (compareTexts test left right)
      (compareTexts test otherLeft otherRight) := by
  have sameText := toText_of_same sameLeft
  cases alike_of_same sameLeft with
  | null => exact scalar_along rfl
  | _ =>
    simp only [compareTexts, sameText, textOrEmpty_of_same sameRight]
    exact .bind_same _ fun _ => scalars_along (fun _ => rfl) _

theorem splitBy_along :
    Alongside like.Same (splitBy left right) (splitBy otherLeft otherRight) := by
  have sameText := toText_of_same sameLeft
  have sameSeparator := toText_of_same sameRight
  cases alike_of_same sameLeft with
  | null => exact scalar_along rfl
  | _ =>
    simp only [splitBy, sameText]
    refine .bind_same _ fun text => ?_
    cases alike_of_same sameRight with
    | null => exact .ok (same_list _ (.cons (same_of_isScalar rfl) .nil))
    | text =>
      dsimp only
      split
      · exact .bind_same _ fun _ => .ok (same_list _ (same_scalars isScalar_textOrNull _))
      · exact .ok (same_splitAtText _ _)
    | _ =>
      simp only [sameSeparator]
      exact .bind_same _ fun _ => .ok (same_splitAtText _ _)

end

/-! ## Places and members -/

section

variable (sameLeft : like.Same left otherLeft) (sameRight : like.Same right otherRight)
  (comparable : like.Comparable left right)

include sameLeft sameRight comparable

/-- What is said about the places of a value among the items of another. -/
theorem places_along {say : List Nat → Value}
    (same : ∀ numbers, like.Same (say numbers) (say numbers)) :
    Alongside like.Same (do return say (places (← left.items) right))
      (do return say (places (← otherLeft.items) otherRight)) := by
  refine .bind (comparable_items_along sameLeft comparable) fun items others sameItems => ?_
  have samePlaces : places items right = places others otherRight := by
    have further : ∀ start,
        ((items.zipIdx start).filter fun item => item.1 == right).map (·.2) =
          ((others.zipIdx start).filter fun item => item.1 == otherRight).map (·.2) := by
      induction sameItems with
      | nil => exact fun _ => rfl
      | cons sameFirst _ ih =>
        intro start
        simp only [zipIdx_cons, filter_cons, beq_of_same sameFirst.2 sameRight sameFirst.1]
        split
        · rw [map_cons, map_cons, ih]
        · exact ih _
    exact further 0
  rw [samePlaces]
  exact .ok (same _)

theorem find_along : Alongside like.Same (find left right) (find otherLeft otherRight) := by
  have inSequence := places_along sameLeft sameRight comparable same_counts
  have sameText := toText_of_same sameRight
  cases alike_of_same sameLeft with
  | null => exact .ok (same_list _ .nil)
  | text =>
    cases alike_of_same sameRight with
    | null => exact .ok (same_list _ .nil)
    | text =>
      simp only [find]
      split
      · exact .bind_same _ fun _ => .ok (same_counts _)
      · exact .ok (same_counts _)
    | _ =>
      simp only [find, sameText]
      exact .bind_same _ fun _ => .ok (same_counts _)
  | _ => exact inSequence

theorem contains_along :
    Alongside like.Same (contains left right) (contains otherLeft otherRight) := by
  have inSequence :
      Alongside like.Same (do return .bool ((← left.items).any (· == right)))
        (do return .bool ((← otherLeft.items).any (· == otherRight))) := by
    refine .bind (comparable_items_along sameLeft comparable) fun items others sameItems => ?_
    rw [any_of_same (fun _ _ same => beq_of_same same.2 sameRight same.1) sameItems]
    exact scalar_along rfl
  have sameText := toText_of_same sameRight
  cases alike_of_same sameLeft with
  | text =>
    cases alike_of_same sameRight with
    | null => exact scalar_along rfl
    | _ =>
      simp only [contains, sameText]
      exact scalars_along (fun _ => rfl) _
  | @object _ entries others sameEntries =>
    have sameAny :
        (entries.any fun entry => entry.2 == right) =
          others.any fun entry => entry.2 == otherRight := by
      cases comparable_items_along sameLeft comparable with
      | ok sameItems =>
        have sameAny := any_of_same (fun _ _ same => beq_of_same same.2 sameRight same.1) sameItems
        rwa [any_map, any_map] at sameAny
    have sameKeys :
        (entries.any fun entry => Key.ofValue? otherRight == some entry.1) =
          others.any fun entry => Key.ofValue? otherRight == some entry.1 :=
      any_of_same (fun entry other sameEntry => by rw [key_of_same sameEntry]) sameEntries
    simp only [contains, sameAny, requireMember_of_same sameRight,
      eq_of_kept keyOfValue?_onFunctions sameRight, sameKeys]
    split
    · exact scalar_along rfl
    · exact scalars_along (fun _ => rfl) _
  | _ => exact inSequence

end

/-! ## Parts of sequences -/

/-- What an item adds to a flattened sequence: a list adds its items. -/
def opened : Value → List Value
  | .list _ inner | .tuple inner => inner
  | other => [other]

theorem same_opened (same : like.Same left right) :
    Forall₂ like.Same (opened left) (opened right) := by
  cases alike_of_same same with
  | list _ sameItems | tuple sameItems => exact sameItems
  | _ => exact .cons same .nil

theorem flatten_along (same : like.Same left right) :
    Alongside like.Same (flatten left) (flatten right) := by
  have along := Alongside.bind (items_along same) fun _ _ sameItems =>
    .ok (same_list .data (rel_flatMap sameItems fun _ _ => same_opened))
  cases alike_of_same same with
  | null => exact scalar_along rfl
  | _ => exact along

theorem same_chunks {α : Type} {rel : α → α → Prop} (size fuel : Nat) {items others : List α}
    (same : Forall₂ rel items others) :
    Forall₂ (Forall₂ rel) (chunks size fuel items) (chunks size fuel others) := by
  induction fuel generalizing items others with
  | zero => exact .nil
  | succ _ ih =>
    cases same with
    | nil => exact .nil
    | cons sameFirst sameRest =>
      have whole := Forall₂.cons sameFirst sameRest
      exact .cons (forall₂_take size whole) (ih (forall₂_drop size whole))

theorem divideBy_along (sameLeft : like.Same left otherLeft)
    (sameRight : like.Same right otherRight) :
    Alongside like.Same (divideBy left right) (divideBy otherLeft otherRight) := by
  have sameAmount := eq_of_kept toInt_onFunctions sameRight
  have along := items_along sameLeft
  rw [divideBy, sameAmount]
  refine .bind_same _ fun size => ?_
  split
  · exact .ok (same_list _ .nil)
  · cases alike_of_same sameLeft with
    | object _ sameEntries =>
      dsimp only
      rw [sameEntries.length_eq]
      exact .ok (same_list _
        (rel_map (fun _ _ same => same_object _ same) (same_chunks _ _ sameEntries)))
    | _ =>
      refine .bind along fun items others sameItems => ?_
      rw [sameItems.length_eq]
      exact .ok (same_list _
        (rel_map (fun _ _ same => same_list _ same) (same_chunks _ _ sameItems)))

end Core

end Weave
