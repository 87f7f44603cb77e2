import Weave.Proofs.Outcome.Follows
import Weave.Proofs.Value.Held

open List

namespace Weave

/-!
# Values that look the same

A likeness tells which functions may stand for each other: two functions with a property that are
equal after a change that keeps their sort.  Values look the same if they are equal but for such
functions.  What is computed from values that look the same looks the same.
-/

open Value

variable {value : Value} {entries : Entries} {entry other : Key × Value} {α : Type}
  {refuses : Fault → Prop}

/-- What is seen of functions, and which functions there are. -/
structure Likeness where
  change : Function → Function
  holds : Function → Prop
  keeps : Function.KeepsSort change

namespace Likeness

/-- The functions may stand for each other. -/
abbrev SameFunction (like : Likeness) : Function → Function → Prop := SameBy like.change like.holds

/-- The values look the same. -/
abbrev Same (like : Likeness) : Value → Value → Prop :=
  SameBy (onFunctions like.change) (All like.holds)

/-- The entries have one key and values that look the same. -/
abbrev SameEntry (like : Likeness) : Key × Value → Key × Value → Prop :=
  SameBy (onEntryFunctions like.change) fun entry => entry.2.All like.holds

variable {like : Likeness} {left right : Value} {items others : List Value}

theorem same_of_isScalar (isScalar : value.isScalar) : like.Same value value :=
  ⟨rfl, all_of_isScalar isScalar, all_of_isScalar isScalar⟩

theorem same_list (origin : Origin) (same : Forall₂ like.Same items others) :
    like.Same (.list origin items) (.list origin others) := by
  obtain ⟨seen, leftAll, rightAll⟩ := SameBy.forall₂_iff.mp same
  exact ⟨by simp only [onFunctions, onFunctionsAll_eq_map, seen], all_list.mpr leftAll,
    all_list.mpr rightAll⟩

theorem same_tuple (same : Forall₂ like.Same items others) :
    like.Same (.tuple items) (.tuple others) := by
  obtain ⟨seen, leftAll, rightAll⟩ := SameBy.forall₂_iff.mp same
  exact ⟨by simp only [onFunctions, onFunctionsAll_eq_map, seen], all_tuple.mpr leftAll,
    all_tuple.mpr rightAll⟩

theorem same_object (origin : Origin) {others : Entries}
    (same : Forall₂ like.SameEntry entries others) :
    like.Same (.object origin entries) (.object origin others) := by
  obtain ⟨seen, leftAll, rightAll⟩ := SameBy.forall₂_iff.mp same
  exact ⟨by simp only [onFunctions, onFunctionsEntries_eq_map, seen], all_object.mpr leftAll,
    all_object.mpr rightAll⟩

theorem same_function {callee other : Function} (same : like.SameFunction callee other) :
    like.Same (.function callee) (.function other) :=
  ⟨congrArg Value.function same.seen, all_function.mpr same.left, all_function.mpr same.right⟩

theorem same_entry {key other : Key} (sameKey : key = other) (same : like.Same left right) :
    like.SameEntry (key, left) (other, right) :=
  ⟨Prod.ext sameKey same.seen, same.left, same.right⟩

theorem key_of_same (same : like.SameEntry entry other) : entry.1 = other.1 :=
  (Prod.mk.inj same.seen).1

theorem value_of_same (same : like.SameEntry entry other) : like.Same entry.2 other.2 :=
  ⟨(Prod.mk.inj same.seen).2, same.left, same.right⟩

theorem same_values {others : Entries} (same : Forall₂ like.SameEntry entries others) :
    Forall₂ like.Same (entries.map (·.2)) (others.map (·.2)) :=
  forall₂_map_left_iff.mpr (forall₂_map_right_iff.mpr (same.imp fun _ _ => value_of_same))

/-- Entries that look the same still do when one is set to what looks the same. -/
theorem same_insert (key : Key) {others : Entries}
    (sameEntries : Forall₂ like.SameEntry entries others) (same : like.Same left right) :
    Forall₂ like.SameEntry (entries.insert key left) (others.insert key right) := by
  induction sameEntries with
  | nil => exact .cons (same_entry rfl same) .nil
  | @cons entry _ _ _ sameFirst sameRest ih =>
    obtain ⟨present, _⟩ := entry
    obtain rfl : present = _ := key_of_same sameFirst
    simp only [Entries.insert, setPair] at *
    split
    · exact .cons (same_entry rfl same) sameRest
    · exact .cons sameFirst ih

/-! ## Taking apart what looks the same -/

/-- The values are one scalar, or look the same part by part. -/
inductive Alike (like : Likeness) : Value → Value → Prop
  | null : Alike like .null .null
  | bool (value : Bool) : Alike like (.bool value) (.bool value)
  | int (value : Int) : Alike like (.int value) (.int value)
  | float (value : Float) : Alike like (.float value) (.float value)
  | text (value : String) : Alike like (.text value) (.text value)
  | bytes (data : List UInt8) : Alike like (.bytes data) (.bytes data)
  | buffer (data : List UInt8) : Alike like (.buffer data) (.buffer data)
  | date (day : Calendar.Date) : Alike like (.date day) (.date day)
  | clock (time : Calendar.Clock) : Alike like (.clock time) (.clock time)
  | moment (point : Calendar.Moment) : Alike like (.moment point) (.moment point)
  | period (span : Calendar.Period) : Alike like (.period span) (.period span)
  | list (origin : Origin) {items others : List Value}
      (same : List.Forall₂ like.Same items others) :
      Alike like (.list origin items) (.list origin others)
  | tuple {items others : List Value} (same : List.Forall₂ like.Same items others) :
      Alike like (.tuple items) (.tuple others)
  | object (origin : Origin) {entries others : Entries}
      (same : List.Forall₂ like.SameEntry entries others) :
      Alike like (.object origin entries) (.object origin others)
  | function {other : Function} (same : like.SameFunction callee other) :
      Alike like (.function callee) (.function other)

theorem alike_of_same (same : like.Same left right) : like.Alike left right := by
  obtain ⟨seen, leftAll, rightAll⟩ := same
  have sameScalar : left.isScalar = right.isScalar := by
    rw [← isScalar_onFunctions left, seen, isScalar_onFunctions]
  cases left with
  | list origin =>
    cases right with
    | list =>
      simp only [onFunctions, onFunctionsAll_eq_map, Value.list.injEq] at seen
      obtain ⟨rfl, seenItems⟩ := seen
      exact .list origin
        (SameBy.forall₂_iff.mpr ⟨seenItems, all_list.mp leftAll, all_list.mp rightAll⟩)
    | _ => cases seen
  | tuple =>
    cases right with
    | tuple =>
      simp only [onFunctions, onFunctionsAll_eq_map, Value.tuple.injEq] at seen
      exact .tuple (SameBy.forall₂_iff.mpr ⟨seen, all_tuple.mp leftAll, all_tuple.mp rightAll⟩)
    | _ => cases seen
  | object origin =>
    cases right with
    | object =>
      simp only [onFunctions, onFunctionsEntries_eq_map, Value.object.injEq] at seen
      obtain ⟨rfl, seenEntries⟩ := seen
      exact .object origin
        (SameBy.forall₂_iff.mpr ⟨seenEntries, all_object.mp leftAll, all_object.mp rightAll⟩)
    | _ => cases seen
  | function =>
    cases right with
    | function =>
      exact .function ⟨Value.function.inj seen, all_function.mp leftAll, all_function.mp rightAll⟩
    | _ => cases seen
  | _ =>
    rw [onFunctions_of_isScalar _ sameScalar.symm] at seen
    subst seen
    constructor

/-! ## Computing with what looks the same -/

theorem eq_of_kept {γ : Type} {compute : Value → γ}
    (kept : ∀ value, compute (value.onFunctions like.change) = compute value)
    (same : like.Same left right) :
    compute left = compute right := by
  rw [← kept left, same.seen, kept right]

section

variable (same : like.Same left right)

include same

theorem isTruthy_of_same : left.isTruthy = right.isTruthy := eq_of_kept isTruthy_onFunctions same

theorem number?_of_same : left.number? = right.number? := eq_of_kept number?_onFunctions same

theorem kindName_of_same : left.kindName = right.kindName :=
  eq_of_kept (kindName_onFunctions like.keeps) same

theorem toText_of_same : left.toText = right.toText :=
  eq_of_kept (toText_onFunctions) same

theorem requireMember_of_same : left.requireMember = right.requireMember :=
  eq_of_kept (requireMember_onFunctions like.keeps) same

theorem toNumeral_of_same : left.toNumeral = right.toNumeral :=
  eq_of_kept (toNumeral_onFunctions) same

end

/-- The values hold functions together, and without functions they are equal. -/
theorem eq_of_data (isData : left.holdsFunction = false) (same : like.Same left right) :
    left = right := by
  have otherIsData : right.holdsFunction = false := by
    rw [← eq_of_kept (holdsFunction_onFunctions like.change) same, isData]
  rw [← onFunctions_of_data like.change isData, same.seen, onFunctions_of_data _ otherIsData]

theorem scalar_along (isScalar : value.isScalar) :
    Alongside like.Same (.ok value) (.ok value) :=
  .ok (same_of_isScalar isScalar)

/-- Scalars that are made of what a computation leaves. -/
theorem scalars_along {make : α → Value} (isScalar : ∀ found, (make found).isScalar)
    (result : Except Fault α) :
    Alongside like.Same (do return make (← result)) (do return make (← result)) :=
  .bind_same result fun found => scalar_along (isScalar found)

theorem same_scalars (isScalar : ∀ found, (make found).isScalar) (founds : List α) :
    Forall₂ like.Same (founds.map make) (founds.map make) := by
  refine forall₂_same.mpr fun item mem => ?_
  obtain ⟨found, _, rfl⟩ := mem_map.mp mem
  exact same_of_isScalar (isScalar found)

theorem items_along (same : like.Same left right) :
    Alongside (Forall₂ like.Same) left.items right.items := by
  cases alike_of_same same with
  | null => exact .ok .nil
  | list _ sameItems | tuple sameItems => exact .ok sameItems
  | object _ sameEntries => exact .ok (same_values sameEntries)
  | text | bytes | buffer => exact .ok (same_scalars (fun _ => rfl) _)
  | _ => exact .error _

theorem items_follows (same : like.Same left right) :
    (liftM left.items : Outcome (List Value)).Follows refuses (Forall₂ like.Same)
      (liftM right.items) :=
  .lift (items_along same)

theorem array_follows (same : Forall₂ like.Same items others) :
    (pure (.array items) : Outcome Value).Follows refuses like.Same (pure (.array others)) :=
  .pure (same_list _ same)

theorem record_follows {others : Entries} (same : Forall₂ like.SameEntry entries others) :
    (pure (.record entries) : Outcome Value).Follows refuses like.Same (pure (.record others)) :=
  .pure (same_object _ same)

theorem scalar_follows (isScalar : value.isScalar) :
    (pure value : Outcome Value).Follows refuses like.Same (pure value) :=
  .pure (same_of_isScalar isScalar)

end Likeness

end Weave
