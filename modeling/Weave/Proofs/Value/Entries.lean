import Mathlib.Data.List.Basic
import Weave.Value

namespace Weave

open List

/-!
# Entries and variables by key

What is found under a key after an entry or a variable is set.
-/

variable {entries : Entries} {key : Key} {entry : Key × Value} {value : Value}

section Keys

variable {κ υ : Type} [DecidableEq κ]

theorem mem_setPair {pairs : List (κ × υ)} {key : κ} {value : υ} {pair : κ × υ}
    (mem : pair ∈ setPair pairs key value) :
    pair = (key, value) ∨ pair ∈ pairs := by
  induction pairs with
  | nil => exact .inl (mem_singleton.mp mem)
  | cons first _ ih =>
    obtain ⟨present, old⟩ := first
    by_cases isPresent : present = key
    · simp only [setPair, isPresent, if_true, mem_cons] at mem
      exact mem.imp_right (mem_cons_of_mem _)
    · simp only [setPair, isPresent, if_false, mem_cons] at mem
      rcases mem with rfl | inRest
      · exact .inr mem_cons_self
      · exact (ih inRest).imp_right (mem_cons_of_mem _)

theorem setPair_of_not_mem {pairs : List (κ × υ)} {key : κ} (isNew : key ∉ pairs.map Prod.fst)
    (value : υ) : setPair pairs key value = pairs ++ [(key, value)] := by
  induction pairs with
  | nil => rfl
  | cons pair _ ih =>
    obtain ⟨present, old⟩ := pair
    simp only [map_cons, mem_cons, not_or] at isNew
    have differs : present ≠ key := fun same => isNew.1 same.symm
    simp only [setPair, if_neg differs, ih isNew.2, cons_append]

/-- A key that is there keeps its place, and a new one goes to the end. -/
theorem keys_setPair (pairs : List (κ × υ)) (key : κ) (value : υ) :
    (setPair pairs key value).map Prod.fst =
      if key ∈ pairs.map Prod.fst then pairs.map Prod.fst else pairs.map Prod.fst ++ [key] := by
  induction pairs with
  | nil => rfl
  | cons pair _ ih =>
    obtain ⟨present, old⟩ := pair
    by_cases isPresent : present = key
    · simp [setPair, isPresent]
    · simp only [setPair, isPresent, if_false, map_cons, ih, mem_cons, Ne.symm isPresent, false_or]
      split <;> rfl

theorem nodup_keys_setPair {pairs : List (κ × υ)} (unique : (pairs.map Prod.fst).Nodup) (key : κ)
    (value : υ) : ((setPair pairs key value).map Prod.fst).Nodup := by
  rw [keys_setPair]
  split
  · exact unique
  · rename_i isNew
    apply nodup_append.mpr
    refine ⟨unique, by simp, ?_⟩
    rintro present isKey _ isAdded rfl
    exact isNew (mem_singleton.mp isAdded ▸ isKey)

end Keys

section Pairs

variable {κ υ : Type} [BEq κ] [LawfulBEq κ] [DecidableEq κ]

/-- What stands first is found under its key and hides nothing else. -/
theorem lookup_cons_eq_ite (wanted key : κ) (value : υ) (rest : List (κ × υ)) :
    lookup wanted ((key, value) :: rest) =
      if wanted = key then some value else lookup wanted rest := by
  by_cases same : wanted = key
  · simp [same]
  · have differs : (wanted == key) = false := by simpa using same
    simp [lookup_cons, differs, same]

omit [DecidableEq κ] in
theorem mem_of_lookup {pairs : List (κ × υ)} {key : κ} {value : υ}
    (found : pairs.lookup key = some value) : (key, value) ∈ pairs := by
  obtain ⟨front, back, rfl, _⟩ := lookup_eq_some_iff.mp found
  simp

/-- Where no two pairs share a key, every pair is found under its key. -/
theorem lookup_eq_some_iff_mem {pairs : List (κ × υ)} (unique : (pairs.map Prod.fst).Nodup)
    {key : κ} {value : υ} :
    pairs.lookup key = some value ↔ (key, value) ∈ pairs := by
  refine ⟨mem_of_lookup, fun mem => ?_⟩
  induction pairs with
  | nil => cases mem
  | cons pair _ ih =>
    obtain ⟨present, old⟩ := pair
    rw [map_cons, nodup_cons] at unique
    rw [lookup_cons_eq_ite]
    rcases mem_cons.mp mem with same | inRest
    · cases same
      exact if_pos rfl
    · have differs : key ≠ present := by
        rintro rfl
        exact unique.1 (mem_map.mpr ⟨_, inRest, rfl⟩)
      rw [if_neg differs]
      exact ih unique.2 inRest

/-- A key that was set has its new value, and the other keys keep theirs. -/
theorem lookup_setPair (pairs : List (κ × υ)) (key other : κ) (value : υ) :
    (setPair pairs key value).lookup other =
      if other = key then some value else pairs.lookup other := by
  induction pairs with
  | nil => simp only [setPair, lookup_cons_eq_ite]
  | cons pair _ ih =>
    obtain ⟨present, old⟩ := pair
    by_cases isPresent : present = key
    · simp only [setPair, isPresent, if_true, lookup_cons_eq_ite]
      by_cases same : other = key <;> simp only [same, if_true, if_false]
    · simp only [setPair, isPresent, if_false, lookup_cons_eq_ite, ih]
      by_cases same : other = present
      · simp only [same, isPresent, if_false]
      · simp only [same, if_false]

/-- Where no two pairs share a key, only the pair that was set has its key. -/
theorem mem_setPair_of_nodup {pairs : List (κ × υ)} {key : κ} {value : υ} {pair : κ × υ}
    (unique : (pairs.map Prod.fst).Nodup) (mem : pair ∈ setPair pairs key value) :
    pair = (key, value) ∨ pair ∈ pairs ∧ pair.1 ≠ key := by
  have found := (lookup_eq_some_iff_mem (nodup_keys_setPair unique key value)).mpr mem
  rw [lookup_setPair] at found
  split at found
  case isTrue isKey => exact .inl (Prod.ext isKey (Option.some.inj found).symm)
  case isFalse differs => exact .inr ⟨mem_of_lookup found, differs⟩

end Pairs

namespace Entries

theorem find?_cons (entry : Key × Value) (rest : Entries) (key : Key) :
    find? (entry :: rest) key = if key = entry.1 then some entry.2 else rest.find? key :=
  lookup_cons_eq_ite key entry.1 entry.2 rest

theorem find?_insert (entries : Entries) (key other : Key) (value : Value) :
    (entries.insert key value).find? other =
      if other = key then some value else entries.find? other :=
  lookup_setPair entries key other value

/-- Setting keys leaves entries that were there or are set. -/
theorem mem_insertAll {entries : Entries} (mem : entry ∈ entries.insertAll additions) :
    entry ∈ entries ∨ entry ∈ additions := by
  induction additions generalizing entries with
  | nil => exact .inl mem
  | cons addition rest ih =>
    obtain ⟨key, value⟩ := addition
    rcases ih (show entry ∈ (entries.insert key value).insertAll rest from mem)
      with inEntries | inRest
    · rcases mem_setPair inEntries with isAdded | isOld
      · exact .inr (mem_cons.mpr (.inl isAdded))
      · exact .inl isOld
    · exact .inr (.tail _ inRest)

/-- The entries made by setting keys are among those set. -/
theorem mem_ofList (mem : entry ∈ ofList pairs) : entry ∈ pairs :=
  (mem_insertAll mem).resolve_left not_mem_nil

theorem mem_keys_insertAll {entries additions : Entries}
    (mem : key ∈ (entries.insertAll additions).map Prod.fst) :
    key ∈ entries.map Prod.fst ∨ key ∈ additions.map Prod.fst := by
  obtain ⟨entry, isEntry, rfl⟩ := mem_map.mp mem
  exact (mem_insertAll isEntry).imp mem_map_of_mem mem_map_of_mem

theorem nodup_keys_insertAll (unique : (entries.map Prod.fst).Nodup) (additions : Entries) :
    ((entries.insertAll additions).map Prod.fst).Nodup := by
  induction additions generalizing entries with
  | nil => exact unique
  | cons _ _ ih =>
    apply ih
    exact nodup_keys_setPair unique _ _

theorem nodup_keys_ofList (pairs : List (Key × Value)) : ((ofList pairs).map Prod.fst).Nodup := by
  apply nodup_keys_insertAll
  exact nodup_nil

/-- Setting keys that are new and all differ adds them in order. -/
theorem insertAll_of_nodup (entries : Entries)
    (unique : ((entries ++ additions).map Prod.fst).Nodup) :
    entries.insertAll additions = entries ++ additions := by
  induction additions generalizing entries with
  | nil => simp [insertAll]
  | cons addition rest ih =>
    obtain ⟨key, value⟩ := addition
    have isNew : key ∉ entries.map Prod.fst := by
      rw [map_append] at unique
      intro mem
      exact (nodup_append.mp unique).2.2 key mem key mem_cons_self rfl
    have grown : entries ++ (key, value) :: rest = (entries ++ [(key, value)]) ++ rest := by
      simp
    have unfolded :
        entries.insertAll ((key, value) :: rest) = (entries.insert key value).insertAll rest :=
      rfl
    rw [grown] at unique
    rw [unfolded, insert, setPair_of_not_mem isNew value, ih _ unique, grown]

theorem ofList_of_nodup (unique : (entries.map Prod.fst).Nodup) : ofList entries = entries :=
  insertAll_of_nodup [] unique

end Entries

namespace Bindings

theorem find?_set (bindings : Bindings) (name other : String) (value : Value) :
    (bindings.set name value).find? other =
      if other = name then some value else bindings.find? other :=
  lookup_setPair bindings name other value

/-- Setting a new variable changes no variable that is there. -/
theorem find?_setNew_of_found {bindings : Bindings} (isFound : bindings.find? other = some found)
    (name : String) (value : Value) : (bindings.setNew name value).find? other = some found := by
  unfold setNew
  split
  · exact isFound
  · rename_i isNew
    rw [find?_set, if_neg ?_]
    · exact isFound
    · rintro rfl
      rw [isFound] at isNew
      cases isNew

theorem find?_setNew_of_ne (differs : other ≠ name) (bindings : Bindings) (value : Value) :
    (bindings.setNew name value).find? other = bindings.find? other := by
  unfold setNew
  split
  · rfl
  · rw [find?_set, if_neg differs]

end Bindings

end Weave
