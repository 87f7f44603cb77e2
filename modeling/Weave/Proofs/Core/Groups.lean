import Mathlib
import Weave.Core.Arithmetic
import Weave.Core.Sequences
import Weave.Proofs.Outcome
import Weave.Proofs.Value.Entries

namespace Weave.Core

open List

/-!
# Groups and parts

Grouping puts each item into one group, and cutting a sequence into parts loses nothing.
-/

variable {α : Type} {items rest : List α}

/-! ## Groups -/

section Groups

variable {key : α → String}

/-- The items are divided into groups by their keys: a group has the items that have its name as
their key, in their order, and groups stand in the order of their first items. -/
structure IsGrouping (key : α → String) (items : List α) (groups : List (String × List α)) :
    Prop where
  members : ∀ group ∈ groups, group.2 = items.filter (key · == group.1)
  once : (groups.map (·.1)).Nodup
  found : ∀ item ∈ items, key item ∈ groups.map (·.1)
  notEmpty : ∀ group ∈ groups, group.2 ≠ []
  inOrder : groups.filterMap (·.2.head?) <+ items
  whole : groups.flatMap (·.2) ~ items

/-- The first item is in the first group, with all others that have its key. -/
theorem IsGrouping.cons {item : α} {groups : List (String × List α)}
    (others : IsGrouping key (rest.filter (key · != key item)) groups) :
    IsGrouping key (item :: rest)
      ((key item, item :: rest.filter (key · == key item)) :: groups) := by
  have differs : ∀ group ∈ groups, group.1 ≠ key item := by
    intro group isGroup same
    obtain ⟨other, isOther⟩ := exists_mem_of_ne_nil _ (others.notEmpty group isGroup)
    rw [others.members group isGroup] at isOther
    grind
  refine ⟨forall_mem_cons.mpr ⟨?_, fun group isGroup => ?_⟩, ?_, ?_,
    forall_mem_cons.mpr ⟨cons_ne_nil _ _, others.notEmpty⟩, ?_, ?_⟩
  · simp
  · rw [others.members group isGroup, filter_filter,
      filter_cons_of_neg (by simpa using (differs group isGroup).symm)]
    exact filter_congr fun other _ => by grind
  · refine nodup_cons.mpr ⟨fun isName => ?_, others.once⟩
    obtain ⟨group, isGroup, same⟩ := mem_map.mp isName
    exact differs group isGroup same
  · refine forall_mem_cons.mpr ⟨mem_cons_self, fun other isOther => ?_⟩
    by_cases same : key other = key item
    · simp [same]
    · exact .tail _ (others.found other (mem_filter.mpr ⟨isOther, by simpa using same⟩))
  · exact (others.inOrder.trans filter_sublist).cons_cons item
  · exact (((others.whole.append_left _).trans (filter_append_perm _ rest)).cons item :)

variable {β : Type}

/-- Put a value behind those of its name. -/
def addTo (name : String) (value : β) : List (String × List β) → List (String × List β)
  | [] => [(name, [value])]
  | (present, members) :: rest =>
    if present = name then (present, members ++ [value]) :: rest
    else (present, members) :: addTo name value rest

/-- Values gathered under their names. -/
def gather (pairs : List (String × β)) : List (String × List β) :=
  pairs.foldl (fun groups pair => addTo pair.1 pair.2 groups) []

theorem gather_concat (pairs : List (String × β)) (pair : String × β) :
    gather (pairs ++ [pair]) = addTo pair.1 pair.2 (gather pairs) := by
  simp [gather]

/-- What has the name of the first group goes there, the rest goes on to the others. -/
theorem gather_cons (name : String) (value : β) (pairs : List (String × β)) :
    gather ((name, value) :: pairs) =
      (name, value :: (pairs.filter (·.1 == name)).map (·.2)) ::
        gather (pairs.filter (·.1 != name)) := by
  have foldl_addTo (members : List β) (groups : List (String × List β)) :
      pairs.foldl (fun groups pair => addTo pair.1 pair.2 groups) ((name, members) :: groups) =
        (name, members ++ (pairs.filter (·.1 == name)).map (·.2)) ::
          (pairs.filter (·.1 != name)).foldl (fun groups pair => addTo pair.1 pair.2 groups)
            groups := by
    induction pairs generalizing members groups with
    | nil => simp
    | cons pair _ ih =>
      by_cases same : pair.1 = name
      · simp [addTo, same, ih]
      · simp [addTo, same, Ne.symm same, ih]
  exact foldl_addTo [value] []

theorem gather_isGrouping (key : α → String) (value : α → β) (items : List α) :
    ∃ groups, IsGrouping key items groups ∧
      gather (items.map fun item => (key item, value item)) =
        groups.map fun group => (group.1, group.2.map value) := by
  induction isLength : items.length using Nat.strong_induction_on generalizing items with
  | _ length ih =>
    cases items with
    | nil => exact ⟨[], ⟨by simp, .nil, by simp, by simp, .slnil, .nil⟩, rfl⟩
    | cons item rest =>
      have shorter : (rest.filter (key · != key item)).length < length := by
        rw [← isLength]
        exact Nat.lt_succ_of_le (length_filter_le _ rest)
      obtain ⟨_, isGrouping, areGroups⟩ := ih _ shorter _ rfl
      refine ⟨_, isGrouping.cons, ?_⟩
      rw [map_cons, map_cons, ← areGroups, gather_cons]
      simp [filter_map, Function.comp_def]

/-- No name comes twice, none is without values, and no value is lost. -/
theorem gather_spec (pairs : List (String × β)) :
    ((gather pairs).map (·.1)).Nodup ∧ (∀ group ∈ gather pairs, group.2 ≠ []) ∧
      ∀ name value,
        (∃ values, (name, values) ∈ gather pairs ∧ value ∈ values) ↔ (name, value) ∈ pairs := by
  obtain ⟨_, isGrouping, areGroups⟩ := gather_isGrouping Prod.fst Prod.snd pairs
  rw [map_id''] at areGroups
  · rw [areGroups]
    refine ⟨by simpa [Function.comp_def] using isGrouping.once, ?_, fun name value =>
      ⟨?_, fun mem => ?_⟩⟩
    · exact forall_mem_map.mpr fun group mem => by simpa using isGrouping.notEmpty group mem
    · rintro ⟨_, isGroup, mem⟩
      obtain ⟨group, isGroup, _⟩ := mem_map.mp isGroup
      have members := isGrouping.members group isGroup
      grind
    · obtain ⟨group, isGroup, rfl⟩ := mem_map.mp (isGrouping.found _ mem)
      refine ⟨_, mem_map.mpr ⟨group, isGroup, rfl⟩, mem_map.mpr ⟨(group.1, value), ?_, rfl⟩⟩
      rw [isGrouping.members group isGroup]
      exact mem_filter.mpr ⟨mem, by simp⟩
  · exact fun _ => rfl

/-- A value for an item, under the name of the item's key. -/
def named (ask : α → Outcome Value) (value : α → Value) (item : α) : Outcome (String × Value) := do
  return (← (← ask item).groupKey, value item)

section Named

variable {ask : α → Outcome Value} {key : α → Value} {value : α → Value}

end Named

end Groups

/-! ## Parts -/

/-- The items are cut into parts of a size, but for the last part. -/
structure IsCut (size : Nat) (items : List α) (parts : List (List α)) : Prop where
  joined : parts.flatten = items
  count : parts.length = (items.length + size - 1) / size
  full : ∀ part ∈ parts.dropLast, part.length = size
  last : ∀ part ∈ parts.getLast?, 0 < part.length ∧ part.length ≤ size

theorem isCut_nil (positive : 0 < size) : IsCut size ([] : List α) [] :=
  ⟨rfl, by simp [Nat.div_eq_of_lt, positive], by simp, by simp⟩

/-- A part is cut off from the front. -/
theorem IsCut.cons {size : Nat} {parts : List (List α)} {item : α} (positive : 0 < size)
    (isCut : IsCut size ((item :: rest).drop size) parts) :
    IsCut size (item :: rest) ((item :: rest).take size :: parts) := by
  have isSize : ((item :: rest).take size).length = min size (rest.length + 1) := length_take
  have count : parts.length = rest.length / size := by
    rw [isCut.count, length_drop, length_cons]
    rcases Nat.lt_or_ge rest.length size with isShort | isLong
    · rw [Nat.div_eq_of_lt (by omega), Nat.div_eq_of_lt isShort]
    · congr 1
      omega
  refine ⟨?_, ?_, ?_, ?_⟩
  · rw [flatten_cons, isCut.joined, take_append_drop]
  · rw [length_cons, count, length_cons, ← Nat.add_div_right _ positive]
    congr 1
    omega
  · cases parts with
    | nil => simp
    | cons =>
      refine forall_mem_cons.mpr ⟨?_, isCut.full⟩
      have notShort : ¬ rest.length < size := fun isShort => by
        rw [Nat.div_eq_of_lt isShort] at count
        cases count
      omega
  · cases parts with
    | nil => simp [isSize]; omega
    | cons => exact isCut.last

theorem isCut_chunks (positive : 0 < size) (enough : items.length ≤ fuel) :
    IsCut size items (chunks size fuel items) := by
  induction fuel generalizing items with
  | zero =>
    obtain rfl := length_eq_zero_iff.mp (Nat.le_zero.mp enough)
    exact isCut_nil positive
  | succ _ ih =>
    cases items with
    | nil => exact isCut_nil positive
    | cons =>
      refine IsCut.cons positive (ih ?_)
      rw [length_drop]
      omega

theorem foldlM_concat_array (front : List Value) (parts : List (List Value)) :
    (parts.map Value.array).foldlM concat (.array front) =
      .ok (.array (front ++ parts.flatten)) := by
  induction parts generalizing front with
  | nil => simp [pure, Except.pure]
  | cons part _ ih =>
    rw [flatten_cons, ← append_assoc, ← ih]
    rfl

theorem foldlM_concat_record {parts : List Entries}
    (unique : ((front ++ parts.flatten).map Prod.fst).Nodup) :
    (parts.map Value.record).foldlM concat (.record front) =
      .ok (.record (front ++ parts.flatten)) := by
  induction parts generalizing front with
  | nil => simp [pure, Except.pure]
  | cons part _ ih =>
    rw [flatten_cons, ← append_assoc] at unique ⊢
    have joins : concat (.record front) (.record part) = .ok (.record (front ++ part)) := by
      rw [concat, Entries.insertAll_of_nodup]
      exact unique.sublist ((sublist_append_left _ _).map _)
    rw [← ih unique, map_cons, foldlM_cons, joins]
    rfl

/-- Cutting a list or an object into parts of a positive size gives as many full parts as there can
be and one for the rest; joined, they are the list or the object again. -/
theorem divideBy_cuts_without_loss {size : Nat} (positive : 0 < size) (origin : Origin) :
    (∀ items : List Value, ∃ parts, IsCut size items parts ∧
      divideBy (.list origin items) (.int size) = .ok (.array (parts.map .array)) ∧
      (parts.map Value.array).foldlM concat (.array []) = .ok (.array items)) ∧
    ∀ entries : Entries, (entries.map Prod.fst).Nodup → ∃ parts, IsCut size entries parts ∧
      divideBy (.object origin entries) (.int size) = .ok (.array (parts.map .record)) ∧
      (parts.map Value.record).foldlM concat (.record []) = .ok (.record entries) := by
  have isSize : ¬ (size : Int) ≤ 0 := by omega
  have cut (collection : Value) : divideBy collection (.int size) = _ := if_neg isSize
  refine ⟨fun items => ?_, fun entries unique => ?_⟩
  · have isCut := isCut_chunks positive items.length.le_refl
    refine ⟨_, isCut, cut _, ?_⟩
    rw [foldlM_concat_array, isCut.joined, nil_append]
  · have isCut := isCut_chunks positive entries.length.le_refl
    refine ⟨_, isCut, cut _, ?_⟩
    rw [foldlM_concat_record (by rwa [isCut.joined]), isCut.joined, nil_append]

theorem divideBy_cuts_without_loss_three :
    let entries : Entries := [(.text "a", .int 1), (.text "b", .int 2), (.text "c", .int 3)]
    ∃ parts, IsCut 2 entries parts ∧
      divideBy (.object .xml entries) (.int 2) = .ok (.array (parts.map .record)) ∧
      (parts.map Value.record).foldlM concat (.record []) = .ok (.record entries) :=
  (divideBy_cuts_without_loss (by decide) _).2 _ (by decide)

end Weave.Core
