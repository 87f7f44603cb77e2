import Weave.Proofs.Exchange.Core

open List

namespace Weave

/-!
# Functions that call functions

Two callers that leave the same for functions and arguments that look the same make no difference to
what is mapped, filtered or reduced with them.
-/

open Value Likeness

variable {others candidates : List Value} {outcome other : Outcome Value}
  {items : List (Value × Nat)} {acc otherAccumulator best otherBest : Value}
  {like : Likeness} {refuses : Fault → Prop}

/-- Arguments that look the same, told apart by how many there are. -/
inductive Likeness.SameArguments (like : Likeness) : List Value → List Value → Prop
  | none :
      SameArguments like [] []
  | one {value other : Value} (same : like.Same value other) :
      SameArguments like [value] [other]
  | two (sameLeft : like.Same left otherLeft) (sameRight : like.Same right otherRight) :
      SameArguments like [left, right] [otherLeft, otherRight]
  | more (first second third otherFirst otherSecond otherThird : Value)
      (rest otherRest : List Value) :
      SameArguments like (first :: second :: third :: rest)
        (otherFirst :: otherSecond :: otherThird :: otherRest)

theorem Likeness.sameArguments_of_same (same : Forall₂ like.Same args others) :
    like.SameArguments args others := by
  cases same with
  | nil => exact .none
  | cons first same =>
    cases same with
    | nil => exact .one first
    | cons second same =>
      cases same with
      | nil => exact .two first second
      | cons => exact .more ..

/-- The callers leave what is related for functions and arguments that look the same. -/
def Caller.Follows (refuses : Fault → Prop) (like : Likeness) (rel : Value → Value → Prop)
    (left right : Caller) :
    Prop :=
  ∀ {callee other : Function} {arguments others : List Value},
    like.SameFunction callee other →
    List.Forall₂ like.Same arguments others →
    (left callee arguments).Follows refuses rel (right other others)

namespace Core

/-- The two stand at one place and are related. -/
structure Placed {α : Type} (rel : α → α → Prop) (left right : α × Nat) : Prop where
  same : rel left.1 right.1
  place : left.2 = right.2

section Places

variable {α : Type} {rel : α → α → Prop}

theorem placed_zipIdx {items others : List α} (same : Forall₂ rel items others) :
    Forall₂ (Placed rel) items.zipIdx others.zipIdx := by
  have further :
      ∀ start, Forall₂ (Placed rel) (items.zipIdx start) (others.zipIdx start) := by
    induction same with
    | nil => exact fun _ => .nil
    | cons first _ ih => exact fun start => .cons ⟨first, rfl⟩ (ih _)
  exact further 0

theorem same_firsts {items others : List (α × Nat)} (same : Forall₂ (Placed rel) items others) :
    Forall₂ rel (items.map (·.1)) (others.map (·.1)) :=
  forall₂_map_left_iff.mpr (forall₂_map_right_iff.mpr (same.imp fun _ _ => Placed.same))

end Places

theorem same_numbered {item other : Value × Nat} (same : Placed like.Same item other) :
    Forall₂ like.Same (numbered item) (numbered other) := by
  unfold numbered
  rw [same.place]
  exact .cons same.same (.cons (same_of_isScalar rfl) .nil)

theorem same_entryArguments {entry other : (Key × Value) × Nat}
    (same : Placed like.SameEntry entry other) :
    Forall₂ like.Same (entryArguments entry) (entryArguments other) := by
  unfold entryArguments
  rw [same.place, key_of_same same.same]
  exact .cons (value_of_same same.same)
    (.cons (same_of_isScalar (isScalar_toValue _)) (.cons (same_of_isScalar rfl) .nil))

/-- Results that look the same are true together. -/
theorem truth_follows (follows : outcome.Follows refuses like.Same other) :
    (do return (← outcome).isTruthy : Outcome Bool).Follows refuses Eq
      (do return (← other).isTruthy) :=
  .bind follows fun _ _ same => .pure (isTruthy_of_same same)

/-- Items that are told apart by marks that look the same. -/
theorem distinctFrom_follows {mark otherMark : Value × Nat → Outcome Value} (marks :
      ∀ item other, Placed like.Same item other →
        (mark item).Follows refuses like.Same (otherMark other))
    (seen : List Value) {others : List (Value × Nat)}
    (same : Forall₂ (Placed like.Same) items others) :
    (distinctFrom mark seen items).Follows refuses (Forall₂ like.Same)
      (distinctFrom otherMark seen others) := by
  induction same generalizing seen with
  | nil => exact .pure .nil
  | cons sameFirst _ ih =>
    refine .bind (marks _ _ sameFirst) fun found otherFound sameFound => ?_
    rw [eq_of_kept (marker_onFunctions) sameFound]
    refine .bind_same _ fun marker => ?_
    split
    · exact ih seen
    · exact .bind (ih _) fun kept otherKept sameKept =>
        .pure (.cons sameFirst.same sameKept)

section Asking

variable {ask otherAsk : List Value → Outcome Value} (asks :
    ∀ candidates others, Forall₂ like.Same candidates others →
      (ask candidates).Follows refuses like.Same (otherAsk others))
  {sequence otherSequence : Value} (sameSequence : like.Same sequence otherSequence)

include asks sameSequence

theorem keepItems_follows :
    (keepItems ask sequence).Follows refuses like.Same (keepItems otherAsk otherSequence) := by
  refine .bind (items_follows sameSequence) fun items others sameItems => ?_
  exact .bind
    (.keep (fun item other sameItem => truth_follows (asks _ _ (same_numbered sameItem)))
      (placed_zipIdx sameItems))
    fun kept otherKept sameKept => array_follows (same_firsts sameKept)

theorem spreadItems_follows :
    (spreadItems ask sequence).Follows refuses like.Same (spreadItems otherAsk otherSequence) := by
  refine .bind (items_follows sameSequence) fun items others sameItems => ?_
  exact .bind
    (.each (fun item other sameItem =>
        .bind (asks _ _ (same_numbered sameItem)) fun _ _ same => items_follows same)
      (placed_zipIdx sameItems))
    fun parts otherParts sameParts => array_follows (rel_flatten sameParts)

theorem firstItems_follows {function otherFun : Value} (sameFun : like.Same function otherFun) :
    (firstItems ask sequence function).Follows refuses like.Same
      (firstItems otherAsk otherSequence otherFun) := by
  refine .bind (items_follows sameSequence) fun items others sameItems => ?_
  have marked :=
    Outcome.Follows.bind
      (distinctFrom_follows (fun item other sameItem => asks _ _ (same_numbered sameItem)) []
        (placed_zipIdx sameItems))
      fun kept otherKept sameKept => array_follows sameKept
  cases alike_of_same sameFun with
  | null => exact array_follows sameItems
  | _ => exact marked

end Asking

section Callers

variable {rel : Value → Value → Prop} {left right : Caller} {function otherFun : Value}
  (sameFun : like.Same function otherFun)

include sameFun

theorem invoke_follows (callers : Caller.Follows refuses like rel left right)
    (same : Forall₂ like.Same candidates others) :
    (invoke left function candidates).Follows refuses rel
      (invoke right otherFun others) := by
  cases alike_of_same sameFun with
  | @function callee other sameCallee =>
    have sameCount : callee.parameterCount? = other.parameterCount? := by
      rw [← like.keeps.parameterCount?, sameCallee.seen, like.keeps.parameterCount?]
    simp only [invoke, sameCount]
    apply callers sameCallee
    split
    · exact forall₂_take _ same
    · exact same
  | _ => exact .throw _

variable (callers : Caller.Follows refuses like like.Same left right)

include callers

theorem invokeOrKeep_follows (same : Forall₂ like.Same candidates others) :
    (invokeOrKeep left function candidates).Follows refuses like.Same
      (invokeOrKeep right otherFun others) := by
  simp only [invokeOrKeep, eq_of_kept isFunction_onFunctions sameFun]
  split
  · exact invoke_follows sameFun callers same
  · exact .pure sameFun

/-- A step of a reduction takes what looks the same to what looks the same. -/
theorem reduceStep_follows (sameItem : like.Same item otherItem)
    (sameAccumulator : like.Same acc otherAccumulator) :
    (reduceStep left function item acc).Follows refuses like.Same
      (reduceStep right otherFun otherItem otherAccumulator) := by
  cases alike_of_same sameFun with
  | @function callee other sameCallee =>
    have sameCount : callee.parameterCount? = other.parameterCount? := by
      rw [← like.keeps.parameterCount?, sameCallee.seen, like.keeps.parameterCount?]
    simp only [reduceStep, sameCount]
    split
    · exact callers sameCallee (.cons sameItem (.cons sameAccumulator .nil))
    · exact callers sameCallee (.cons sameItem .nil)
  | _ => exact .throw _

theorem reduceFrom_follows {items : List Value} (sameAccumulator : like.Same acc otherAccumulator)
    (sameItems : Forall₂ like.Same items others) :
    (reduceFrom left function acc items).Follows refuses like.Same
      (reduceFrom right otherFun otherAccumulator others) := by
  induction sameItems generalizing acc otherAccumulator with
  | nil => exact .pure sameAccumulator
  | cons sameFirst _ ih =>
    exact .bind (reduceStep_follows sameFun callers sameFirst sameAccumulator)
      fun found otherFound sameFound => ih sameFound

/-! ## Sequences -/

variable {sequence otherSequence : Value} (sameSequence : like.Same sequence otherSequence)

include sameSequence

theorem mapItems_follows : (mapItems left sequence function).Follows refuses like.Same
      (mapItems right otherSequence otherFun) := by
  refine .bind (items_follows sameSequence) fun items others sameItems => ?_
  exact .bind
    (.each (fun item other sameItem =>
        invokeOrKeep_follows sameFun callers (same_numbered sameItem))
      (placed_zipIdx sameItems))
    fun results otherResults sameResults => array_follows sameResults

theorem distinctBy_follows : (distinctBy left sequence function).Follows refuses like.Same
      (distinctBy right otherSequence otherFun) := by
  have along :=
    firstItems_follows (fun _ _ => invoke_follows sameFun callers) sameSequence sameFun
  cases alike_of_same sameSequence with
  | null => exact scalar_follows rfl
  | _ => exact along

theorem flatMap_follows : (flatMap left sequence function).Follows refuses like.Same
      (flatMap right otherSequence otherFun) := by
  have along := spreadItems_follows (fun _ _ => invoke_follows sameFun callers) sameSequence
  cases alike_of_same sameSequence with
  | null => exact scalar_follows rfl
  | _ => exact along

theorem reduceItems_follows : (reduceItems left sequence function).Follows refuses like.Same
      (reduceItems right otherSequence otherFun) := by
  refine .bind (items_follows sameSequence) fun items others sameItems => ?_
  cases sameItems with
  | nil => exact scalar_follows rfl
  | cons sameFirst sameRest =>
    exact .bind (invoke_follows sameFun callers (.cons sameFirst .nil))
      fun start otherStart sameStart =>
        reduceFrom_follows sameFun callers sameStart sameRest

end Callers

/-! ## Extremes -/

/-- Items that look the same are compared by keys that do. -/
theorem extremeByFrom_follows {key otherKey : Value × Nat → Outcome Value} (keys :
      ∀ item other, Placed like.Same item other →
        (key item).Follows refuses like.SameKey (otherKey other))
    (cmp : Comparison) {bestKey otherBestKey : Value} (sameBest : like.Same best otherBest)
    (sameKey : like.Same bestKey otherBestKey) {others : List (Value × Nat)}
    (same : Forall₂ (Placed like.Same) items others) :
    (extremeByFrom key cmp best bestKey items).Follows refuses like.Same
      (extremeByFrom otherKey cmp otherBest otherBestKey others) := by
  induction same generalizing best otherBest bestKey otherBestKey with
  | nil => exact .pure sameBest
  | cons sameFirst _ ih =>
    refine .bind (keys _ _ sameFirst) fun found otherFound sameFound => ?_
    rw [compare_of_same sameFound.same sameKey cmp (sameFound.comparable.imp_right .inl)]
    refine .bind_same _ fun isBetter => ?_
    cases isBetter with
    | true => exact ih sameFirst.same sameFound.same
    | false => exact ih sameBest sameKey

theorem extremeFrom_along (cmp : Comparison) (sameBest : like.Same best otherBest)
    {items : List Value} (same : Forall₂ like.SameKey items others) :
    Alongside like.Same (extremeFrom cmp best items) (extremeFrom cmp otherBest others) := by
  induction same generalizing best otherBest with
  | nil => exact .ok sameBest
  | cons sameFirst _ ih =>
    rw [extremeFrom, extremeFrom,
      compare_of_same sameFirst.same sameBest cmp (sameFirst.comparable.imp_right .inl)]
    refine .bind_same _ fun isBetter => ih ?_
    cases isBetter with
    | true => exact sameFirst.same
    | false => exact sameBest

/-- Members of which functions need not be told apart have one extreme. -/
theorem extreme_along (cmp : Comparison) {left right : Value} (same : like.Same left right)
    (comparable : Function.KeepsSame like.change ∨ left.holdsFunction = false) :
    Alongside like.Same (extreme cmp left) (extreme cmp right) := by
  have along := (members_along same).and fun members found mem isMember =>
    comparable.imp_right fun isData => data_of_mem_members isData members found mem isMember
  cases alike_of_same same with
  | null => exact scalar_along rfl
  | _ =>
    refine .bind along fun members others sameMembers => ?_
    cases sameMembers with
    | nil => exact scalar_along rfl
    | cons sameFirst sameRest =>
      exact extremeFrom_along cmp sameFirst.2
        (sameRest.imp fun _ _ sameMember => ⟨sameMember.2, sameMember.1⟩)

theorem extremeBy_follows {left right : Caller}
    (callers : Caller.Follows refuses like like.SameKey left right)
    {sequence otherSequence function otherFun : Value}
    (sameFun : like.Same function otherFun)
    (sameSequence : like.Same sequence otherSequence) (cmp : Comparison) :
    (extremeBy left cmp sequence function).Follows refuses like.Same
      (extremeBy right cmp otherSequence otherFun) := by
  have along := items_along sameSequence
  cases alike_of_same sameSequence with
  | null => exact scalar_follows rfl
  | _ =>
    refine .bind (.lift along) fun items others sameItems => ?_
    have samePlaces := placed_zipIdx sameItems
    generalize items.zipIdx = placed, others.zipIdx = otherPlaced at samePlaces
    cases samePlaces with
    | nil => exact scalar_follows rfl
    | cons sameFirst sameRest =>
      exact .bind (invoke_follows sameFun callers (same_numbered sameFirst))
        fun found otherFound sameFound =>
          extremeByFrom_follows
            (fun item other sameItem =>
              invoke_follows sameFun callers (same_numbered sameItem))
            cmp sameFirst.same sameFound.same sameRest

end Core

end Weave
