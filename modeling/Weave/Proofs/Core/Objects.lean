import Mathlib
import Weave.Core.Arithmetic
import Weave.Core.Objects
import Weave.Proofs.Outcome
import Weave.Proofs.Value.Entries

namespace Weave.Core

open List

/-!
# Predicates on entries and merged objects

The functions that ask a predicate about the entries of an object agree with each other, although
each stops asking where it knows its answer.  A merge of two objects has the entries of the second
behind those of the first that it does not replace.
-/

/-! ## Predicates -/

/-- Loops that ask a predicate until they know the answer leave what all answers give. -/
theorem results_of_answers {call : Caller} {condition : Value}
    {answer : (Key × Value) × Nat → Value} {entries : List ((Key × Value) × Nat)}
    (answers : ∀ entry ∈ entries, (onEntry call condition entry).result = .ok (answer entry)) :
    let holds (entry : (Key × Value) × Nat) : Bool := (answer entry).isTruthy
    (leadingEntries call condition entries).result = .ok ((entries.takeWhile holds).map (·.1)) ∧
      (holdsUntil false call condition entries).result = .ok (entries.all holds) ∧
      (holdsUntil true call condition entries).result = .ok (entries.any holds) := by
  intro holds
  induction entries with
  | nil => exact ⟨rfl, rfl, rfl⟩
  | cons entry _ ih =>
    obtain ⟨isAnswer, others⟩ := forall_mem_cons.mp answers
    obtain ⟨leading, every, some⟩ := ih others
    simp only [leadingEntries, holdsUntil, Outcome.result_bind_of_ok isAnswer,
      takeWhile_cons, all_cons, any_cons, holds]
    cases (answer entry).isTruthy with
    | false => exact ⟨rfl, rfl, some⟩
    | true => exact ⟨Outcome.result_bind_of_ok leading _, every, rfl⟩

/-- A predicate that answers about every entry of an object is asked the same by all functions.  The
leading entries are those in front of the first of which it does not hold, the kept ones are those
of which it holds, and either tell whether it holds of every entry or of some. -/
theorem entry_predicates_agree {call : Caller} {callee : Function} (origin : Origin)
    {entries : Entries} {answer : (Key × Value) × Nat → Value}
    (answers : ∀ entry ∈ entries.zipIdx,
      (invoke call (.function callee) (entryArguments entry)).result = .ok (answer entry)) :
    let object : Value := .object origin entries
    let holds (entry : (Key × Value) × Nat) : Bool := (answer entry).isTruthy
    let leading := (entries.zipIdx.takeWhile holds).map (·.1)
    let kept := (entries.zipIdx.filter holds).map (·.1)
    (takeWhile call object (.function callee)).result = .ok (.record leading) ∧
      (filterObject call object (.function callee)).result = .ok (.record kept) ∧
      ∃ every some : Bool,
        (everyEntry call object (.function callee)).result = .ok (.bool every) ∧
        (someEntry call object (.function callee)).result = .ok (.bool some) ∧
        (every = true ↔ leading.length = entries.length) ∧ (every = true ↔ kept = entries) ∧
        (some = true ↔ kept ≠ []) := by
  intro object holds leading kept
  obtain ⟨isLeading, every, some⟩ := results_of_answers answers
  have areKept := Outcome.result_keep fun entry mem => Outcome.result_bind_of_ok (answers entry mem)
    fun found => (pure found.isTruthy : Outcome Bool)
  refine ⟨Outcome.result_bind_of_ok isLeading _, Outcome.result_bind_of_ok areKept _, _, _,
    Outcome.result_bind_of_ok every _, Outcome.result_bind_of_ok some _, ?_, ?_,
    by simp [kept, holds]⟩
  · rw [all_eq_true, ← takeWhile_eq_self_iff]
    refine ⟨fun same => by simp [leading, holds, same], fun isWhole => ?_⟩
    have isFront : entries.zipIdx.takeWhile holds <+: entries.zipIdx := takeWhile_prefix holds
    exact isFront.eq_of_length (by simpa [leading] using isWhole)
  · rw [all_eq_true, ← filter_eq_self]
    refine ⟨fun same => by simp [kept, holds, same], fun isWhole => ?_⟩
    exact filter_sublist.eq_of_length (by simpa [kept] using congrArg length isWhole)

/-- Of the two entries only the second is kept, so none is leading. -/
theorem entry_predicates_agree_second :
    let object : Value := .record [(.text "a", .int 0), (.text "b", .int 1)]
    let call : Caller := fun _ arguments => .value (arguments.headD .null)
    (takeWhile call object (.function (.plus 1 1))).result = .ok (.record []) ∧
      (filterObject call object (.function (.plus 1 1))).result =
        .ok (.record [(.text "b", .int 1)]) := by
  intro object call
  have agree := @entry_predicates_agree call (.plus 1 1) .data
    [(.text "a", .int 0), (.text "b", .int 1)] (·.1.2)
      (by simp [invoke, call, Outcome.value, entryArguments, Function.parameterCount?])
  exact ⟨agree.1, agree.2.1⟩

/-! ## Merges -/

section Merges

variable {left right : Entries}

/-- The entries of the second object behind those of the first that have other keys. -/
def merged (left right : Entries) : Entries :=
  left.filter (fun entry => (right.find? entry.1).isNone) ++ right

theorem isNone_find?_iff {entries : Entries} {key : Key} :
    (entries.find? key).isNone = true ↔ key ∉ entries.map Prod.fst := by
  rw [Option.isNone_iff_eq_none, Entries.find?, lookup_eq_none_iff, mem_map]
  grind

theorem find?_merged (left right : Entries) (key : Key) :
    (merged left right).find? key = (right.find? key).or (left.find? key) := by
  have kept : Entries.find? (left.filter fun entry => (right.find? entry.1).isNone) key =
      if (right.find? key).isNone then left.find? key else none := by
    induction left with
    | nil => exact (ite_self none).symm
    | cons =>
      rw [filter_cons]
      split <;> grind [Entries.find?_cons]
  have parts : (merged left right).find? key = _ := lookup_append
  rw [parts, ← Entries.find?, ← Entries.find?, kept]
  cases right.find? key <;> simp

theorem merged_assoc (left middle right : Entries) :
    merged (merged left middle) right = merged left (merged middle right) := by
  have isNew (key : Key) : ((merged middle right).find? key).isNone =
      ((right.find? key).isNone && (middle.find? key).isNone) := by
    rw [find?_merged, Option.isNone_or]
  simp only [merged.eq_1 left (merged middle right), isNew]
  simp [merged, filter_filter]

theorem nodup_keys_merged (uniqueLeft : (left.map Prod.fst).Nodup)
    (uniqueRight : (right.map Prod.fst).Nodup) :
    ((merged left right).map Prod.fst).Nodup := by
  rw [merged, map_append, nodup_append]
  refine ⟨uniqueLeft.sublist (filter_sublist.map _), uniqueRight, ?_⟩
  rintro _ isLeft _ isRight rfl
  obtain ⟨_, mem, rfl⟩ := mem_map.mp isLeft
  exact isNone_find?_iff.mp (mem_filter.mp mem).2 isRight

theorem find?_insertAll (left : Entries) (unique : (right.map Prod.fst).Nodup) (key : Key) :
    (left.insertAll right).find? key = (right.find? key).or (left.find? key) := by
  induction right generalizing left with
  | nil => rfl
  | cons entry _ ih =>
    rw [map_cons, nodup_cons, ← isNone_find?_iff, Option.isNone_iff_eq_none] at unique
    refine (ih (left.insert entry.1 entry.2) unique.2).trans ?_
    rw [Entries.find?_insert, Entries.find?_cons]
    by_cases same : key = entry.1
    · simp [same, unique.1]
    · simp [same]

theorem withoutKeys_keys (left right : Entries) :
    withoutKeys left (right.map (·.1.toValue)) =
      .ok (left.filter fun entry => (right.find? entry.1).isNone) := by
  have single (left : Entries) (key : Key) :
      withoutKey left key.toValue = .ok (left.filter fun entry => entry.1 != key) := by
    cases left <;> cases key <;> rfl
  induction right generalizing left with
  | nil => simp [withoutKeys, Entries.find?]; rfl
  | cons entry _ ih =>
    rw [map_cons, withoutKeys, foldlM_cons, single]
    refine (ih _).trans ?_
    rw [filter_filter]
    congr 1
    refine filter_congr fun other _ => ?_
    rw [Entries.find?_cons]
    by_cases same : other.1 = entry.1 <;> simp [same]

/-- A merge is what the language defines it to be, a difference and a concatenation; merging is
associative, null changes nothing, and a concatenation has the same entries in another order. -/
theorem mergeWith_is_difference_and_concat
    (first second third : Origin) {left middle right : Entries}
    (uniqueLeft : (left.map Prod.fst).Nodup) (uniqueMiddle : (middle.map Prod.fst).Nodup) :
    let a : Value := .object first left
    let b : Value := .object second middle
    let c : Value := .object third right
    (mergeWith a b = do
      let keys ← onEntries "keySet" keysOf b
      let others ← diff a keys
      concat others b) ∧
    (do mergeWith (← mergeWith a b) c) = (do mergeWith a (← mergeWith b c)) ∧
    mergeWith .null a = .ok (.record left) ∧ mergeWith a .null = .ok (.record left) ∧
    ∃ merged joined : Entries, mergeWith a b = .ok (.record merged) ∧
      concat a b = .ok (.record joined) ∧ (∀ key, joined.find? key = merged.find? key) ∧
      joined ~ merged := by
  intro a b c
  have unique := nodup_keys_merged uniqueLeft uniqueMiddle
  have uniqueAll := Entries.nodup_keys_insertAll uniqueLeft middle
  have same (key : Key) : (left.insertAll middle).find? key = (merged left middle).find? key := by
    rw [find?_insertAll left uniqueMiddle, find?_merged]
  refine ⟨?_, ?_, rfl, rfl, merged left middle, left.insertAll middle, rfl, rfl, same, ?_⟩
  · have removed : diff a (keysOf middle) =
        .ok (.record (left.filter fun entry => (middle.find? entry.1).isNone)) := by
      change (withoutKeys left (middle.map (·.1.toValue)) >>= _) = _
      rw [withoutKeys_keys]
      rfl
    change _ = (diff a (keysOf middle) >>= fun others => concat others b)
    rw [removed]
    exact congrArg (Except.ok ∘ Value.record) (Entries.insertAll_of_nodup _ unique).symm
  · change Except.ok (Value.record (merged (merged left middle) right)) =
      .ok (.record (merged left (merged middle right)))
    rw [merged_assoc]
  · refine (perm_ext_iff_of_nodup (.of_map _ uniqueAll) (.of_map _ unique)).mpr fun entry => ?_
    rw [← lookup_eq_some_iff_mem uniqueAll, ← lookup_eq_some_iff_mem unique]
    exact Eq.congr_left (same entry.1)

/-- An entry that is replaced goes to the end in a merge and stays in a concatenation. -/
theorem mergeWith_is_difference_and_concat_replaced :
    let left : Entries := [(.text "a", .int 1), (.text "b", .int 2)]
    let right : Entries := [(.text "a", .int 3)]
    ∃ merged joined : Entries, mergeWith (.record left) (.record right) = .ok (.record merged) ∧
      concat (.record left) (.record right) = .ok (.record joined) ∧
      (∀ key, joined.find? key = merged.find? key) ∧ joined ~ merged :=
  (@mergeWith_is_difference_and_concat .data .data .data _ _ [] (by decide) (by decide)).2.2.2.2

end Merges

end Weave.Core
