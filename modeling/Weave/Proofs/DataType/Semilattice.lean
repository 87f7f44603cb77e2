import Weave.Proofs.DataType.Normal

namespace Weave.DataType

open List

/-!
# Unions and merges as joins

Bringing two normal types together is associative and idempotent.  The order of the two shows only
in the order of the options of unions, and no description of a type shows that.
-/

variable {left middle right type : DataType} {types : List DataType}
  {lefts middles rights : List (String × DataType)} {leftOpen middleOpen rightOpen : Bool}

/-! ## Members taken once -/

theorem once_of_nodup (distinct : types.Nodup) : once types = types := by
  induction types using reverseRecOn with
  | nil => rfl
  | append_singleton _ last ih =>
    obtain ⟨frontDistinct, _, disjoint⟩ := nodup_append'.mp distinct
    rw [once_concat, ih frontDistinct, if_neg]
    exact fun isOld => disjoint isOld (mem_singleton_self last)

theorem once_append_once (front back : List DataType) :
    once (front ++ once back) = once (front ++ back) := by
  induction back using reverseRecOn with
  | nil => rfl
  | append_singleton _ _ ih =>
    rw [once_concat, ← append_assoc, once_concat, ← ih]
    split
    · rw [if_pos (by simp_all)]
    · rw [← append_assoc, once_concat]

theorem once_once_append (front back : List DataType) :
    once (once front ++ back) = once (front ++ back) := by
  induction back using reverseRecOn with
  | nil => rw [append_nil, append_nil, once_of_nodup (nodup_once front)]
  | append_singleton _ _ ih =>
    rw [← append_assoc, ← append_assoc, once_concat, once_concat, ih]

theorem once_append_of_subset (isPart : back ⊆ types) : once (types ++ back) = once types := by
  induction back using reverseRecOn with
  | nil => rw [append_nil]
  | append_singleton _ _ ih =>
    rw [append_subset, cons_subset] at isPart
    rw [← append_assoc, once_concat, ih isPart.1, if_pos (mem_once.mpr isPart.2.1)]

/-! ## Unions -/

theorem flatMap_options_pair (left right : DataType) :
    [left, right].flatMap options = left.options ++ right.options := by
  simp

theorem nodup_options (normal : type.IsNormal) : type.options.Nodup := by
  cases normal with
  | union _ distinct => exact distinct
  | _ => exact nodup_singleton _

theorem options_ne_nil (normal : type.IsNormal) : type.options ≠ [] := by
  cases normal with
  | union several =>
    rintro rfl
    cases several
  | _ => exact cons_ne_nil _ _

theorem unionOf_eq_any (hasAny : .any ∈ types.flatMap options) : unionOf types = .any := by
  have inOnce := mem_once.mpr hasAny
  unfold unionOf
  split
  · rfl
  · rename_i only isOnly
    rw [isOnly, mem_singleton] at inOnce
    exact inOnce.symm
  · exact if_pos (contains_iff_mem.mpr inOnce)

/-- Unless everything is allowed, a union has the options of both types. -/
theorem options_union (leftNormal : left.IsNormal) (rightNormal : right.IsNormal)
    (noAny : .any ∉ left.options ++ right.options) :
    (unionOf [left, right]).options = once (left.options ++ right.options) := by
  rw [← mem_once] at noAny
  unfold unionOf
  rw [flatMap_options_pair]
  split
  · rename_i isNil
    obtain ⟨first, mem⟩ := exists_mem_of_ne_nil _ (options_ne_nil leftNormal)
    cases isNil ▸ mem_once.mpr (mem_append_left _ mem)
  · rename_i only isOnly
    have mem : only ∈ once (left.options ++ right.options) := by simp [isOnly]
    have isOption : only = .any ∨ only.isOption := by
      rcases mem_append.mp (mem_once.mp mem) with inLeft | inRight
      · exact (leftNormal.of_mem_options inLeft).2
      · exact (rightNormal.of_mem_options inRight).2
    rw [isOnly]
    rcases isOption with rfl | isOption
    · exact absurd mem noAny
    · cases only <;> first | rfl | cases isOption
  · rw [if_neg (fun hasAny => noAny (contains_iff_mem.mp hasAny))]
    rfl

theorem union_any (hasAny : .any ∈ left.options ++ right.options) : unionOf [left, right] = .any :=
  unionOf_eq_any (by rwa [flatMap_options_pair])

theorem any_mem_union (hasAny : .any ∈ left.options ++ right.options) :
    .any ∈ (unionOf [left, right]).options := by
  rw [union_any hasAny]
  exact mem_singleton_self _

theorem union_assoc (leftNormal : left.IsNormal) (middleNormal : middle.IsNormal)
    (rightNormal : right.IsNormal) :
    unionOf [unionOf [left, middle], right] = unionOf [left, unionOf [middle, right]] := by
  by_cases hasAny : .any ∈ left.options ++ middle.options ++ right.options
  · have fromLeft : unionOf [unionOf [left, middle], right] = .any := by
      refine union_any (mem_append.mpr ?_)
      exact (mem_append.mp hasAny).imp_left any_mem_union
    have fromRight : unionOf [left, unionOf [middle, right]] = .any := by
      rw [append_assoc] at hasAny
      refine union_any (mem_append.mpr ?_)
      exact (mem_append.mp hasAny).imp_right any_mem_union
    rw [fromLeft, fromRight]
  · rw [append_assoc] at hasAny
    have noneInBack := fun inBack => hasAny (mem_append_right _ inBack)
    rw [← append_assoc] at hasAny
    have noneInFront := fun inFront => hasAny (mem_append_left _ inFront)
    rw [unionOf.eq_1 [_, right], unionOf.eq_1 [left, unionOf _], flatMap_options_pair,
      flatMap_options_pair,
      options_union leftNormal middleNormal noneInFront,
      options_union middleNormal rightNormal noneInBack, once_once_append, once_append_once,
      append_assoc]

theorem union_self (normal : type.IsNormal) : unionOf [type, type] = type := by
  have options : once ([type, type].flatMap options) = type.options := by
    rw [flatMap_options_pair, once_append_of_subset (Subset.refl _),
      once_of_nodup (nodup_options normal)]
  unfold unionOf
  rw [options]
  cases normal with
  | @union members several _ areOptions =>
    rcases members with _ | ⟨first, _ | ⟨second, others⟩⟩
    · cases several
    · exact absurd several (by simp)
    · exact if_neg fun hasAny => by cases areOptions .any (contains_iff_mem.mp hasAny)
  | _ => rfl

/-- Whichever of two types comes first, their union has the same options. -/
theorem options_union_swap (leftNormal : left.IsNormal) (rightNormal : right.IsNormal) :
    (unionOf [left, right]).options.Perm (unionOf [right, left]).options := by
  by_cases hasAny : .any ∈ left.options ++ right.options
  · have swapped := mem_append.mpr (mem_append.mp hasAny).symm
    rw [union_any hasAny, union_any swapped]
  · have swapped : .any ∉ right.options ++ left.options :=
      fun inSwapped => hasAny (mem_append.mpr (mem_append.mp inSwapped).symm)
    rw [options_union leftNormal rightNormal hasAny, options_union rightNormal leftNormal swapped,
      perm_ext_iff_of_nodup (nodup_once _) (nodup_once _)]
    simp [or_comm]

/-! ## Descriptions -/

theorem describeAll_eq_map (types : List DataType) : describeAll types = types.map describe := by
  induction types with
  | nil => rfl
  | cons _ _ ih => rw [describeAll, ih, map_cons]

theorem sortedOnce_of_perm {texts : List String} (perm : texts.Perm others) :
    sortedOnce texts = sortedOnce others := by
  unfold sortedOnce
  congr 1
  exact List.Perm.eq_of_pairwise (fun _ _ _ _ => le_antisymm) (pairwise_mergeSort_texts id texts)
    (pairwise_mergeSort_texts id others)
    ((mergeSort_perm texts _).trans (perm.trans (mergeSort_perm others _).symm))

theorem sortedOnce_singleton (text : String) : sortedOnce [text] = [text] := by
  rw [sortedOnce, mergeSort_singleton]
  rfl

/-- A type is described by its options, in the order of their descriptions. -/
theorem describe_eq_options (type : DataType) :
    type.describe = " | ".intercalate (sortedOnce (type.options.map describe)) := by
  cases type with
  | union => rw [describe, describeAll_eq_map, options]
  | _ => simp [options, sortedOnce_singleton]

theorem describe_union_swap (leftNormal : left.IsNormal) (rightNormal : right.IsNormal) :
    (unionOf [left, right]).describe = (unionOf [right, left]).describe := by
  rw [describe_eq_options, describe_eq_options (unionOf [right, left]),
    sortedOnce_of_perm ((options_union_swap leftNormal rightNormal).map describe)]

/-! ## Merges of objects -/

theorem nodup_names {pairs : List (String × υ)}
    (sorted : pairs.Pairwise fun left right => left.1 < right.1) : (pairs.map Prod.fst).Nodup :=
  pairwise_map.mpr (sorted.imp ne_of_lt)

theorem eq_of_lookup {υ : Type} {pairs others : List (String × υ)}
    (sorted : pairs.Pairwise fun left right => left.1 < right.1)
    (othersSorted : others.Pairwise fun left right => left.1 < right.1)
    (same : ∀ name, pairs.lookup name = others.lookup name) :
    pairs = others := by
  refine List.Perm.eq_of_pairwise (fun _ _ _ _ isLess isGreater => absurd isLess isGreater.asymm)
    sorted othersSorted ?_
  rw [perm_ext_iff_of_nodup (nodup_names sorted).of_map (nodup_names othersSorted).of_map]
  rintro ⟨_, _⟩
  rw [← lookup_eq_some_iff_mem (nodup_names sorted), same,
    lookup_eq_some_iff_mem (nodup_names othersSorted)]

theorem lookup_map_values {υ ω : Type} (change : String → υ → ω) (pairs : List (String × υ))
    (name : String) : (pairs.map fun pair => (pair.1, change pair.1 pair.2)).lookup name =
      (pairs.lookup name).map (change name) := by
  induction pairs with
  | nil => rfl
  | cons _ _ ih =>
    rw [map_cons, lookup_cons_eq_ite, lookup_cons_eq_ite, ih]
    split
    · rename_i same
      rw [same, Option.map_some]
    · rfl

theorem lookup_filter_names (keeps : String → Bool) (fields : List (String × DataType))
    (name : String) : (fields.filter fun field => keeps field.1).lookup name =
      if keeps name then fields.lookup name else none := by
  induction fields with
  | nil => simp
  | cons =>
    split <;> grind [lookup_cons_eq_ite]

/-- Fields of both types are changed in place, and those of the second alone come behind. -/
theorem mergeFields_eq (lefts rights : List (String × DataType)) : mergeFields lefts rights =
      (lefts.map fun field =>
          (field.1, (rights.lookup field.1).elim field.2 fun other => unionOf [field.2, other])) ++
        rights.filter fun field => (lefts.lookup field.1).isNone := by
  refine congrArg (· ++ _) (map_congr_left fun field _ => ?_)
  obtain ⟨name, _⟩ := field
  dsimp only
  cases rights.lookup name <;> rfl

/-- Under a name, merged fields have what both have, brought together. -/
theorem lookup_mergeFields (lefts rights : List (String × DataType)) (name : String) :
    (mergeFields lefts rights).lookup name =
      Option.merge (fun left right => unionOf [left, right]) (lefts.lookup name)
        (rights.lookup name) := by
  rw [mergeFields_eq, lookup_append,
    lookup_map_values fun name type =>
      (rights.lookup name).elim type fun other => unionOf [type, other],
    lookup_filter_names fun name => (lefts.lookup name).isNone]
  cases lefts.lookup name <;> cases rights.lookup name <;> rfl

theorem normalFields_mergeFields (leftNormal : (object lefts leftOpen).IsNormal)
    (rightNormal : (object rights rightOpen).IsNormal) :
    NormalFields (mergeFields lefts rights) := by
  cases leftNormal with
  | object leftSorted leftTypes =>
    cases rightNormal with
    | object rightSorted rightTypes =>
      rw [mergeFields_eq]
      refine ⟨?_, forall_mem_append.mpr ⟨?_, fun field mem => ?_⟩⟩
      · rw [map_append, map_map]
        refine List.Nodup.append (nodup_names leftSorted)
          ((nodup_names rightSorted).sublist (filter_sublist.map Prod.fst)) ?_
        intro name inLeft inRight
        obtain ⟨field, isField, rfl⟩ := mem_map.mp inRight
        have isAlone := (mem_filter.mp isField).2
        rw [Option.isNone_iff_eq_none, lookup_eq_none_iff] at isAlone
        obtain ⟨other, isOther, same⟩ := mem_map.mp inLeft
        exact bne_iff_ne.mp (isAlone other isOther) same.symm
      · refine forall_mem_map.mpr fun field mem => ?_
        have isNormal := leftTypes field mem
        cases found : rights.lookup field.1 with
        | none => exact isNormal
        | some => exact isNormal_union_pair isNormal (rightTypes _ (mem_of_lookup found))
      · exact rightTypes field (mem_of_mem_filter mem)

theorem exists_mergeObjects (leftNormal : (object lefts leftOpen).IsNormal)
    (rightNormal : (object rights rightOpen).IsNormal) :
    ∃ fields : List (String × DataType),
      mergeObjects lefts leftOpen rights rightOpen = .object fields (leftOpen || rightOpen) ∧
        (object fields (leftOpen || rightOpen)).IsNormal ∧
        ∀ name, fields.lookup name =
          Option.merge (fun left right => unionOf [left, right]) (lefts.lookup name)
            (rights.lookup name) := by
  have areNormal := normalFields_mergeFields leftNormal rightNormal
  refine ⟨_, rfl, isNormal_ofFields areNormal _, fun name => ?_⟩
  rw [← lookup_mergeFields]
  have isPermutation := mergeSort_perm (mergeFields lefts rights)
    fun left right => orderTexts left.1 right.1 != .gt
  ext type
  rw [lookup_eq_some_iff_mem areNormal.once, ← isPermutation.mem_iff,
    lookup_eq_some_iff_mem ((isPermutation.map Prod.fst).nodup_iff.mpr areNormal.once)]

/-- Types of objects are described alike if their fields are. -/
theorem describe_object_congr (same : (lefts.map fun field => (field.1, describe field.2)) =
      rights.map fun field => (field.1, describe field.2))
    (isOpen : Bool) : (object lefts isOpen).describe = (object rights isOpen).describe := by
  have fields (fields : List (String × DataType)) :
      describeFields fields =
        (fields.map fun field => (field.1, describe field.2)).map fun field =>
          field.1 ++ ": " ++ field.2 := by
    induction fields with
    | nil => rfl
    | cons _ _ ih => rw [describeFields, ih, map_cons, map_cons]
  have isEmpty := congrArg isEmpty same
  rw [isEmpty_map, isEmpty_map] at isEmpty
  simp only [describe, fields lefts, fields rights, same, isEmpty]

theorem isNormal_of_lookup (normal : (object lefts leftOpen).IsNormal)
    (found : lefts.lookup name = some type) :
    type.IsNormal := by
  cases normal with
  | object _ normal => exact normal _ (mem_of_lookup found)

theorem sorted_of_isNormal (normal : (object lefts leftOpen).IsNormal) :
    lefts.Pairwise fun left right => left.1 < right.1 := by
  cases normal with
  | object sorted => exact sorted

theorem mergeObjects_assoc (leftNormal : (object lefts leftOpen).IsNormal)
    (middleNormal : (object middles middleOpen).IsNormal)
    (rightNormal : (object rights rightOpen).IsNormal)
    (isFront : mergeObjects lefts leftOpen middles middleOpen = .object front frontOpen)
    (isBack : mergeObjects middles middleOpen rights rightOpen = .object back backOpen) :
    mergeObjects front frontOpen rights rightOpen = mergeObjects lefts leftOpen back backOpen := by
  obtain ⟨_, frontMade, frontNormal, frontFound⟩ := exists_mergeObjects leftNormal middleNormal
  obtain ⟨_, backMade, backNormal, backFound⟩ := exists_mergeObjects middleNormal rightNormal
  obtain ⟨rfl, rfl⟩ := object.inj (frontMade.symm.trans isFront)
  obtain ⟨rfl, rfl⟩ := object.inj (backMade.symm.trans isBack)
  obtain ⟨first, firstMade, firstNormal, firstFound⟩ := exists_mergeObjects frontNormal rightNormal
  obtain ⟨second, secondMade, secondNormal, secondFound⟩ :=
    exists_mergeObjects leftNormal backNormal
  have same : first = second := by
    refine eq_of_lookup (sorted_of_isNormal firstNormal) (sorted_of_isNormal secondNormal) ?_
    intro name
    rw [firstFound, secondFound, frontFound, backFound]
    cases inLeft : lefts.lookup name with
    | none => simp
    | some =>
      cases inMiddle : middles.lookup name with
      | none => simp
      | some =>
        cases inRight : rights.lookup name with
        | none => simp
        | some =>
          exact congrArg some (union_assoc (isNormal_of_lookup leftNormal inLeft)
            (isNormal_of_lookup middleNormal inMiddle) (isNormal_of_lookup rightNormal inRight))
  rw [firstMade, secondMade, same, Bool.or_assoc]

theorem mergeObjects_self (normal : (object lefts leftOpen).IsNormal) :
    mergeObjects lefts leftOpen lefts leftOpen = .object lefts leftOpen := by
  obtain ⟨fields, made, fieldsNormal, found⟩ := exists_mergeObjects normal normal
  have same : fields = lefts := by
    refine eq_of_lookup (sorted_of_isNormal fieldsNormal) (sorted_of_isNormal normal) fun name => ?_
    rw [found]
    cases declared : lefts.lookup name with
    | none => rfl
    | some => exact congrArg some (union_self (isNormal_of_lookup normal declared))
  rw [made, same, Bool.or_self]

theorem describe_mergeObjects_swap (leftNormal : (object lefts leftOpen).IsNormal)
    (rightNormal : (object rights rightOpen).IsNormal) :
    (mergeObjects lefts leftOpen rights rightOpen).describe =
      (mergeObjects rights rightOpen lefts leftOpen).describe := by
  obtain ⟨_, firstMade, firstNormal, firstFound⟩ := exists_mergeObjects leftNormal rightNormal
  obtain ⟨_, secondMade, secondNormal, secondFound⟩ :=
    exists_mergeObjects rightNormal leftNormal
  have sorted {fields : List (String × DataType)} {isOpen : Bool}
      (normal : (object fields isOpen).IsNormal) :
      (fields.map fun field => (field.1, describe field.2)).Pairwise
        fun left right => left.1 < right.1 :=
    pairwise_map.mpr (sorted_of_isNormal normal)
  rw [firstMade, secondMade, Bool.or_comm]
  refine describe_object_congr (eq_of_lookup (sorted firstNormal) (sorted secondNormal) ?_) _
  intro name
  rw [lookup_map_values fun _ => describe, lookup_map_values fun _ => describe, firstFound,
    secondFound]
  cases inLeft : lefts.lookup name with
  | none => simp
  | some =>
    cases inRight : rights.lookup name with
    | none => simp
    | some =>
      exact congrArg some (describe_union_swap (isNormal_of_lookup leftNormal inLeft)
        (isNormal_of_lookup rightNormal inRight))

/--
On normal types, unions and merges of arrays and of objects are associative and idempotent, and the
type of all values absorbs every other.  Swapping two types permutes at most the options of their
union, and it changes no description.
-/
theorem unions_and_merges_are_joins (leftNormal : left.IsNormal) (middleNormal : middle.IsNormal)
    (rightNormal : right.IsNormal) (leftsNormal : (object lefts leftOpen).IsNormal)
    (middlesNormal : (object middles middleOpen).IsNormal)
    (rightsNormal : (object rights rightOpen).IsNormal) :
    (unionOf [unionOf [left, middle], right] = unionOf [left, unionOf [middle, right]] ∧
      unionOf [left, left] = left ∧ unionOf [left, .any] = .any ∧ unionOf [.any, left] = .any ∧
      (unionOf [left, right]).options.Perm (unionOf [right, left]).options ∧
      (unionOf [left, right]).describe = (unionOf [right, left]).describe) ∧
    ((∀ front back,
        mergeArrays left middle = .array front → mergeArrays middle right = .array back →
          mergeArrays front right = mergeArrays left back) ∧
      mergeArrays left left = .array left ∧
      (mergeArrays left right).describe = (mergeArrays right left).describe) ∧
    (∀ front frontOpen back backOpen,
        mergeObjects lefts leftOpen middles middleOpen = .object front frontOpen →
        mergeObjects middles middleOpen rights rightOpen = .object back backOpen →
          mergeObjects front frontOpen rights rightOpen =
            mergeObjects lefts leftOpen back backOpen) ∧
      mergeObjects lefts leftOpen lefts leftOpen = .object lefts leftOpen ∧
      (mergeObjects lefts leftOpen rights rightOpen).describe =
        (mergeObjects rights rightOpen lefts leftOpen).describe := by
  have assoc := union_assoc leftNormal middleNormal rightNormal
  have self := union_self leftNormal
  have swap := describe_union_swap leftNormal rightNormal
  refine ⟨⟨assoc, self, union_any (by simp [options]), union_any (by simp [options]),
    options_union_swap leftNormal rightNormal, swap⟩, ⟨?_, congrArg array self, ?_⟩,
    fun front frontOpen back backOpen => mergeObjects_assoc leftsNormal middlesNormal rightsNormal,
    mergeObjects_self leftsNormal, describe_mergeObjects_swap leftsNormal rightsNormal⟩
  · rintro _ _ isFront isBack
    obtain rfl := array.inj isFront
    obtain rfl := array.inj isBack
    exact congrArg array assoc
  · rw [mergeArrays, mergeArrays, describe, describe, swap]

/-- Two types of objects share a field, with a union on one side. -/
theorem unions_and_merges_are_joins_note :
    (object [("id", .number), ("note", .union [.text, .null])] true).IsNormal ∧
      (object [("note", .null)] false).IsNormal ∧
      (mergeObjects [("id", .number), ("note", .union [.text, .null])] true
            [("note", .null)] false).describe =
        (mergeObjects [("note", .null)] false
            [("id", .number), ("note", .union [.text, .null])] true).describe := by
  have options : (union [text, null]).IsNormal :=
    .union (Nat.le_refl 2) (by simp) (by simp [isOption]) (by simp [IsNormal.text, IsNormal.null])
  have order : (object [("id", .number), ("note", .union [.text, .null])] true).IsNormal :=
    .object (pairwise_pair.mpr (String.lt_iff_toList_lt.mpr (by decide)))
      (by simp [IsNormal.number, options]) true
  have note : (object [("note", null)] false).IsNormal :=
    .object (pairwise_singleton _ _) (by simp [IsNormal.null]) false
  have joins := unions_and_merges_are_joins options .number .null order order note
  exact ⟨order, note, joins.2.2.2.2⟩

end Weave.DataType
