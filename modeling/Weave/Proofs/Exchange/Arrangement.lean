import Weave.Proofs.Exchange.Callers

namespace Weave

open List

/-!
# Grouping, sorting and filtering

Values that look the same fall into groups that look the same and are put in the same order, and
entries of objects that look the same pass the same conditions.
-/

open Value Likeness

variable {like : Likeness} {refuses : Fault → Prop}

namespace Core

/-! ## Groups -/

/-- The values have one key and look the same. -/
structure SameKeyed (like : Likeness) (left right : String × Value) : Prop where
  key : left.1 = right.1
  value : like.Same left.2 right.2

/-- The groups have one key and members that look the same. -/
structure SameGroup (like : Likeness) (left right : String × List Value) : Prop where
  key : left.1 = right.1
  members : List.Forall₂ like.Same left.2 right.2

theorem same_intoGroup (key : String) {value other : Value} (same : like.Same value other)
    {groups others : List (String × List Value)}
    (sameGroups : Forall₂ (SameGroup like) groups others) :
    Forall₂ (SameGroup like) (intoGroup key value groups) (intoGroup key other others) := by
  induction sameGroups with
  | nil => exact .cons ⟨rfl, .cons same .nil⟩ .nil
  | @cons group _ _ _ sameGroup sameRest ih =>
    obtain ⟨_, _⟩ := group
    obtain ⟨rfl, sameMembers⟩ := sameGroup
    simp only [intoGroup]
    split
    · exact .cons ⟨rfl, rel_append sameMembers (.cons same .nil)⟩ sameRest
    · exact .cons ⟨rfl, sameMembers⟩ ih

theorem same_grouped (same : Forall₂ (SameKeyed like) pairs others) :
    Forall₂ (SameGroup like) (grouped pairs) (grouped others) := by
  refine rel_foldl (fun groups otherGroups sameGroups pair other samePair => ?_) .nil same
  obtain ⟨key, _⟩ := pair
  obtain ⟨_, _⟩ := other
  obtain ⟨rfl, sameValue⟩ := samePair
  exact same_intoGroup key sameValue sameGroups

theorem record_of_groups (made :
      ∀ group other, SameGroup like group other → like.SameEntry (entryOf group) (entryOf other))
    (same : Forall₂ (SameKeyed like) pairs others) :
    (pure (.record ((grouped pairs).map entryOf)) : Outcome Value).Follows refuses like.Same
      (pure (.record ((grouped others).map entryOf))) := by
  exact record_follows (rel_map (fun group other => made group other) (same_grouped same))

/-- The entries of the objects among some values. -/
def entriesAmong (members : List Value) : Entries :=
  members.flatMap fun member =>
    match member with
    | .object _ entries => entries
    | _ => []

theorem same_entriesAmong {members others : List Value} (same : Forall₂ like.Same members others) :
    Forall₂ like.SameEntry (entriesAmong members) (entriesAmong others) := by
  induction same with
  | nil => exact .nil
  | cons sameFirst _ ih =>
    cases alike_of_same sameFirst with
    | object _ sameEntries => exact rel_append sameEntries ih
    | _ => exact ih

section Callers

variable {left right : Caller} (callers : Caller.Follows refuses like like.Same left right)
  {collection otherCollection fn otherFun : Value}
  (sameFun : like.Same fn otherFun)

include callers sameFun

theorem groupEntries_follows (same : Forall₂ like.SameEntry entries others) :
    (groupEntries left entries fn).Follows refuses like.Same
      (groupEntries right others otherFun) := by
  have keyed :
      ∀ entry other, Placed like.SameEntry entry other →
        (do
            let key ←
              if fn.isTruthy then invoke left fn (entryArguments entry)
              else Outcome.value entry.1.1.toValue
            return (← key.groupKey, Value.record [entry.1]) : Outcome (String × Value)).Follows
          refuses (SameKeyed like)
          (do
            let key ←
              if otherFun.isTruthy then invoke right otherFun (entryArguments other)
              else Outcome.value other.1.1.toValue
            return (← key.groupKey, Value.record [other.1])) := by
    intro entry other sameEntry
    have grouped (key otherKey : Value) (sameKey : like.Same key otherKey) :
        (do return (← key.groupKey, Value.record [entry.1]) : Outcome (String × Value)).Follows
          refuses (SameKeyed like) (do return (← otherKey.groupKey, Value.record [other.1])) := by
      rw [eq_of_kept (groupKey_onFunctions) sameKey]
      exact .bind_same _ fun _ => .pure ⟨rfl, same_object _ (.cons sameEntry.same .nil)⟩
    rw [isTruthy_of_same sameFun, key_of_same sameEntry.same]
    split
    · exact .bind (invoke_follows sameFun callers (same_entryArguments sameEntry)) grouped
    · exact .bind (scalar_follows (isScalar_toValue _)) grouped
  refine .bind (.each keyed (placed_zipIdx same)) fun pairs otherPairs samePairs => ?_
  refine record_of_groups (fun group other sameGroup => ?_) samePairs
  exact same_entry (congrArg Key.text sameGroup.key)
    (same_object _ (same_entriesAmong sameGroup.members))

theorem groupBy_follows (sameCollection : like.Same collection otherCollection) :
    (groupBy left collection fn).Follows refuses like.Same
      (groupBy right otherCollection otherFun) := by
  have along := items_along sameCollection
  have keyed :
      ∀ item other, Placed like.Same item other →
        (do return (← (← invoke left fn (numbered item)).groupKey, item.1) :
            Outcome (String × Value)).Follows refuses (SameKeyed like)
          (do return (← (← invoke right otherFun (numbered other)).groupKey, other.1)) := by
    intro item other sameItem
    refine .bind (invoke_follows sameFun callers (same_numbered sameItem))
      fun key otherKey sameKey => ?_
    rw [eq_of_kept (groupKey_onFunctions) sameKey]
    exact .bind_same _ fun _ => .pure ⟨rfl, sameItem.same⟩
  have inSequence :=
    Outcome.Follows.bind (.lift along) fun items others sameItems =>
      Outcome.Follows.bind (.each keyed (placed_zipIdx sameItems))
        fun pairs otherPairs samePairs =>
          record_of_groups
            (fun _ _ same =>
              same_entry (congrArg Key.text same.key) (same_list .data same.members))
            samePairs
  cases alike_of_same sameCollection with
  | null => exact scalar_follows rfl
  | object _ sameEntries => exact groupEntries_follows callers sameFun sameEntries
  | _ =>
    cases alike_of_same sameFun with
    | null =>
      refine .bind (.lift along) fun items others sameItems => record_follows ?_
      refine rel_map (fun item other sameItem => ?_) (placed_zipIdx sameItems)
      exact same_entry (by rw [sameItem.place]) (same_list _ (.cons sameItem.same .nil))
    | _ => exact inSequence

end Callers

end Core

/-! ## Sorting -/

namespace Sorting

variable {α β : Type} {rel : α → β → Prop}

/-- The runs are related item by item, and so are the items behind them. -/
structure SameRun (rel : α → β → Prop) (left : List α × List α) (right : List β × List β) :
    Prop where
  run : Forall₂ rel left.1 right.1
  rest : Forall₂ rel left.2 right.2

/-- The tests agree on related items. -/
def SameTest (rel : α → β → Prop) (less : α → α → Except Fault Bool)
    (otherLess : β → β → Except Fault Bool) :
    Prop :=
  ∀ left right otherLeft otherRight, rel left otherLeft → rel right otherRight →
    less left right = otherLess otherLeft otherRight

variable {less : α → α → Except Fault Bool} {otherLess : β → β → Except Fault Bool}
  (tests : SameTest rel less otherLess)
  {items : List α} {others : List β} (same : Forall₂ rel items others)

include tests same

theorem runFrom_along (sameLast : rel last otherLast) :
    Alongside (SameRun rel) (runFrom less last items) (runFrom otherLess otherLast others) := by
  induction same generalizing last otherLast with
  | nil => exact .ok ⟨.nil, .nil⟩
  | cons sameFirst sameRest ih =>
    rw [runFrom, tests _ _ _ _ sameFirst sameLast]
    refine .bind_same _ fun goesOn => ?_
    cases goesOn with
    | true =>
      exact .bind (ih sameFirst) fun _ _ found => .ok ⟨.cons sameFirst found.run, found.rest⟩
    | false => exact .ok ⟨.nil, .cons sameFirst sameRest⟩

theorem leadingRun_along :
    Alongside (SameRun rel) (leadingRun less items) (leadingRun otherLess others) := by
  cases same with
  | nil => exact .ok ⟨.nil, .nil⟩
  | cons sameFirst same =>
    cases same with
    | nil => exact .ok ⟨.cons sameFirst .nil, .nil⟩
    | cons sameSecond sameRest =>
      rw [leadingRun, tests _ _ _ _ sameSecond sameFirst]
      refine .bind_same _ fun isLess => ?_
      cases isLess with
      | true =>
        refine .bind (runFrom_along tests sameRest sameSecond) fun run otherRun found => ?_
        exact .ok ⟨rel_reverse (.cons sameFirst (.cons sameSecond found.run)), found.rest⟩
      | false =>
        have negated : SameTest rel (fun item last => do return !(← less item last))
            fun item last => do return !(← otherLess item last) :=
          fun _ _ _ _ sameLeft sameRight => by simp only [tests _ _ _ _ sameLeft sameRight]
        refine .bind (runFrom_along negated sameRest sameSecond) fun run otherRun found => ?_
        exact .ok ⟨.cons sameFirst (.cons sameSecond found.run), found.rest⟩

section

variable {item : α} {other : β} (sameItem : rel item other)

include sameItem

theorem placeWithin_of_same (fuel low high : Nat) : placeWithin less items item fuel low high =
      placeWithin otherLess others other fuel low high := by
  induction fuel generalizing low high with
  | zero => rfl
  | succ _ ih =>
    have samePivot := Likeness.rel_getElem? same (low + (high - low) / 2)
    simp only [placeWithin]
    split
    · generalize items[low + (high - low) / 2]? = pivot, others[low + (high - low) / 2]? = other
        at samePivot
      cases samePivot with
      | none => rfl
      | some samePivot => simp only [tests _ _ _ _ sameItem samePivot, ih]
    · rfl

end

omit same in
theorem placeAll_along (sameSorted : Forall₂ rel sorted otherSorted)
    (same : Forall₂ rel items others) :
    Alongside (Forall₂ rel) (placeAll less sorted items)
      (placeAll otherLess otherSorted others) := by
  induction same generalizing sorted otherSorted with
  | nil => exact .ok sameSorted
  | cons sameFirst _ ih =>
    refine .bind ?_ fun _ _ placed => ih placed
    rw [place, placeWithin_of_same tests sameSorted sameFirst, sameSorted.length_eq]
    exact .bind_same _ fun index => .ok
      (rel_append (forall₂_take index sameSorted) (.cons sameFirst (forall₂_drop index sameSorted)))

/-- Related items are put in the same order by tests that agree on them. -/
theorem sortBy_along : Alongside (Forall₂ rel) (sortBy less items) (sortBy otherLess others) :=
  .bind (leadingRun_along tests same) fun _ _ found => placeAll_along tests found.run found.rest

end Sorting

namespace Core

/-- The entries look the same and stand beside sort keys that do. -/
structure SameSorted (like : Likeness) (left right : Value × (Key × Value)) : Prop where
  key : like.SameKey left.1 right.1
  entry : like.SameEntry left.2 right.2

/-- The items look the same and stand beside their places and sort keys that look the same. -/
structure SamePlaced (like : Likeness) (left right : Value × Nat × Value) : Prop where
  key : like.SameKey left.1 right.1
  place : left.2.1 = right.2.1
  item : like.Same left.2.2 right.2.2

theorem less_of_sameKey {left otherLeft : Value} (sameLeft : like.SameKey left otherLeft)
    (sameRight : like.SameKey right otherRight) :
    left.less right = otherLeft.less otherRight :=
  compare_of_same sameLeft.same sameRight.same .less (sameLeft.comparable.imp_right .inl)

theorem numberedLess_of_same : Sorting.SameTest (SamePlaced like)
      (fun left right => Sorting.numberedLess (left.1, left.2.1) (right.1, right.2.1))
      fun left right => Sorting.numberedLess (left.1, left.2.1) (right.1, right.2.1) := by
  intro left right otherLeft otherRight sameLeft sameRight
  have sameTest : left.1.same right.1 = otherLeft.1.same otherRight.1 :=
    beq_of_same sameLeft.key.same sameRight.key.same (sameLeft.key.comparable.imp_right .inl)
  simp only [Sorting.numberedLess, sameTest, sameLeft.place, sameRight.place,
    less_of_sameKey sameLeft.key sameRight.key]

theorem sortKeyed_follows (same : Forall₂ (SameSorted like) entries others) :
    (liftM (sortKeyed entries) : Outcome Value).Follows refuses like.Same
      (liftM (sortKeyed others)) := by
  refine .lift (.bind
    (Sorting.sortBy_along (fun _ _ _ _ left right => less_of_sameKey left.key right.key) same)
    fun ordered otherOrdered sameOrdered => .ok (same_object _ ?_))
  exact rel_map (fun _ _ sameEntry => sameEntry.entry) sameOrdered

/-- Sorting by keys that look the same puts entries and items in the same order. -/
theorem orderBy_follows (callers : Caller.Follows refuses like like.SameKey left right)
    {collection fn : Value} (sameFun : like.Same fn otherFun)
    (sameCollection : like.Same collection otherCollection) (comparable :
      fn.isNull → collection.isObject = false →
        Function.KeepsSame like.change ∨ collection.holdsFunction = false) :
    (orderBy left collection fn).Follows refuses like.Same
      (orderBy right otherCollection otherFun) := by
  have along := items_along sameCollection
  have keyed :
      ∀ item other, Placed like.Same item other →
        (do return (← invoke left fn (numbered item), item.2, item.1) :
            Outcome (Value × Nat × Value)).Follows refuses (SamePlaced like)
          (do return (← invoke right otherFun (numbered other), other.2, other.1)) :=
    fun item other sameItem =>
      .bind (invoke_follows sameFun callers (same_numbered sameItem))
        fun key otherKey sameKey => .pure ⟨sameKey, sameItem.place, sameItem.same⟩
  have inSequence :=
    Outcome.Follows.bind (.lift along) fun items others sameItems =>
      Outcome.Follows.bind (.each keyed (placed_zipIdx sameItems)) fun pairs otherPairs samePairs =>
        Outcome.Follows.bind (.lift (Sorting.sortBy_along numberedLess_of_same samePairs))
          fun ordered otherOrdered sameOrdered =>
            array_follows (rel_map (fun _ _ same => SamePlaced.item same) sameOrdered)
  cases alike_of_same sameCollection with
  | null => exact scalar_follows rfl
  | object _ sameEntries =>
    have keyed :
        ∀ entry other, like.SameEntry entry other →
          (do return (← invoke left fn [entry.2, entry.1.toValue], entry) :
              Outcome (Value × (Key × Value))).Follows refuses (SameSorted like)
            (do return (← invoke right otherFun [other.2, other.1.toValue], other)) := by
      intro entry other sameEntry
      rw [key_of_same sameEntry]
      refine .bind
        (invoke_follows sameFun callers (.cons (value_of_same sameEntry)
          (.cons (same_of_isScalar (isScalar_toValue _)) .nil)))
        fun key otherKey sameKey => .pure ⟨sameKey, sameEntry⟩
    cases alike_of_same sameFun with
    | null =>
      refine sortKeyed_follows (rel_map (fun entry other sameEntry => ⟨?_, sameEntry⟩) sameEntries)
      rw [key_of_same sameEntry]
      exact ⟨same_of_isScalar (isScalar_toValue _), .inr (by cases other.1 <;> rfl)⟩
    | _ =>
      exact .bind (.each keyed sameEntries) fun keyed otherKeyed sameKeyed =>
        sortKeyed_follows sameKeyed
  | _ =>
    cases alike_of_same sameFun with
    | null =>
      refine .bind (.lift (along.and fun items found item mem =>
        (comparable rfl rfl).imp_right fun isData =>
          data_of_mem_items isData items found item mem))
        fun items others sameItems => ?_
      refine .bind (.lift (Sorting.sortBy_along (fun _ _ _ _ left right =>
        compare_of_same left.2 right.2 .less (left.1.imp_right .inl)) sameItems))
        fun sorted otherSorted sameSorted => array_follows (sameSorted.imp fun _ _ => And.right)
    | _ => exact inSequence

/-! ## Conditions on entries -/

section Callers

variable {left right : Caller} (callers : Caller.Follows refuses like like.Same left right)
  {fn otherFun : Value} (sameFun : like.Same fn otherFun)
  {entries others : List ((Key × Value) × Nat)}

include callers sameFun

theorem onEntry_follows {entry other : (Key × Value) × Nat}
    (same : Placed like.SameEntry entry other) :
    (onEntry left fn entry).Follows refuses like.Same (onEntry right otherFun other) :=
  invoke_follows sameFun callers (same_entryArguments same)

theorem keptEntries_follows {entries others : Entries}
    (same : Forall₂ like.SameEntry entries others) :
    (keptEntries left entries fn).Follows refuses like.Same
      (keptEntries right others otherFun) :=
  .bind
    (.keep (fun _ _ sameEntry => truth_follows (onEntry_follows callers sameFun sameEntry))
      (placed_zipIdx same))
    fun _ _ sameKept => record_follows (same_firsts sameKept)

theorem leadingEntries_follows (same : Forall₂ (Placed like.SameEntry) entries others) :
    (leadingEntries left fn entries).Follows refuses (Forall₂ like.SameEntry)
      (leadingEntries right otherFun others) := by
  induction same with
  | nil => exact .pure .nil
  | cons sameFirst _ ih =>
    refine .bind (onEntry_follows callers sameFun sameFirst)
      fun found otherFound sameFound => ?_
    rw [isTruthy_of_same sameFound]
    split
    · exact .bind ih fun leading otherLeading sameLeading =>
        .pure (.cons sameFirst.same sameLeading)
    · exact .pure .nil

theorem holdsUntil_follows (answer : Bool) (same : Forall₂ (Placed like.SameEntry) entries others) :
    (holdsUntil answer left fn entries).Follows refuses Eq
      (holdsUntil answer right otherFun others) := by
  induction same with
  | nil => exact .pure rfl
  | cons sameFirst _ ih =>
    refine .bind (onEntry_follows callers sameFun sameFirst)
      fun found otherFound sameFound => ?_
    rw [isTruthy_of_same sameFound]
    split
    · exact .pure rfl
    · exact ih

variable {object other : Value} (sameObject : like.Same object other)

include sameObject

theorem pluck_follows :
    (pluck left object fn).Follows refuses like.Same (pluck right other otherFun) := by
  cases alike_of_same sameObject with
  | object _ same =>
    exact .bind
      (.each (fun entry other sameEntry => onEntry_follows callers sameFun sameEntry)
        (placed_zipIdx same))
      fun results otherResults sameResults => array_follows sameResults
  | null => exact scalar_follows rfl
  | _ => exact .throw _

theorem filterObject_follows : (filterObject left object fn).Follows refuses like.Same
      (filterObject right other otherFun) := by
  cases alike_of_same sameObject with
  | object _ sameEntries =>
    have kept := keptEntries_follows callers sameFun sameEntries
    cases alike_of_same sameFun with
    | null => exact record_follows sameEntries
    | _ => exact kept
  | null => exact scalar_follows rfl
  | _ => exact .throw _

theorem filter_follows :
    (filter left object fn).Follows refuses like.Same (filter right other otherFun) := by
  have along := items_along sameObject
  have inSequence := keepItems_follows (fun _ _ => invoke_follows sameFun callers) sameObject
  cases alike_of_same sameObject with
  | null => exact array_follows .nil
  | object _ sameEntries =>
    have kept := keptEntries_follows callers sameFun sameEntries
    cases alike_of_same sameFun with
    | null => exact record_follows sameEntries
    | _ => exact kept
  | _ =>
    cases alike_of_same sameFun with
    | null => exact .bind (.lift along) fun _ _ sameItems => array_follows sameItems
    | _ => exact inSequence

omit callers in
theorem testEntries_follows (name : String) (nullSame : like.Same whenNull whenNull) (tests :
      ∀ entries others, Forall₂ (Placed like.SameEntry) entries others →
        (test entries).Follows refuses like.Same (otherTest others)) :
    (testEntries name whenNull test object fn).Follows refuses like.Same
      (testEntries name whenNull otherTest other otherFun) := by
  cases alike_of_same sameObject with
  | object _ same =>
    have tested := tests _ _ (placed_zipIdx same)
    cases alike_of_same sameFun with
    | null => exact .throw _
    | _ => exact tested
  | null => exact .pure nullSame
  | _ => exact .throw _

end Callers

end Core

end Weave
