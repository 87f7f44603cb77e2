import Weave.Proofs.Exchange.Likeness

namespace Weave

open List

/-!
# Parts, order and coercions of what looks the same

What selectors, indices and coercions make of values that look the same looks the same.  Two
values compare as others that look the same if not both of them hold functions, or if functions do.
-/

open Value Likeness

variable {like : Likeness} {left right : Value} {items others : List Value}
  {entries otherEntries : Entries}

namespace Likeness

/-! ## Parts -/

theorem same_getD {found other : Option Value} (same : Option.Rel like.Same found other) :
    like.Same (found.getD .null) (other.getD .null) := by
  cases same with
  | some same => exact same
  | none => exact same_of_isScalar rfl

theorem same_find? (same : Forall₂ like.SameEntry entries otherEntries) (key : Key) :
    Option.Rel like.Same (entries.find? key) (otherEntries.find? key) := by
  induction same with
  | nil => exact .none
  | @cons entry other _ _ sameFirst _ ih =>
    obtain ⟨present, _⟩ := entry
    obtain ⟨_, _⟩ := other
    obtain rfl : present = _ := key_of_same sameFirst
    simp only [Entries.find?, lookup_cons_eq_ite] at *
    split
    · exact .some (value_of_same sameFirst)
    · exact ih

theorem same_entryAt (same : Forall₂ like.SameEntry entries otherEntries) (name : String) :
    like.Same (entry entries name) (entry otherEntries name) :=
  same_getD (same_find? same _)

theorem rel_getElem? {α β : Type} {rel : α → β → Prop} {items : List α} {others : List β}
    (same : Forall₂ rel items others) (place : Nat) :
    Option.Rel rel items[place]? others[place]? := by
  induction same generalizing place with
  | nil => exact .none
  | cons sameFirst _ ih =>
    cases place with
    | zero => exact .some sameFirst
    | succ place => exact ih place

theorem same_findings (same : like.Same left right) :
    Forall₂ like.Same (findings left) (findings right) := by
  cases alike_of_same same with
  | null => exact .nil
  | list _ sameItems => exact sameItems
  | _ => exact .cons same .nil

theorem same_firstElement (same : like.Same left right) :
    like.Same (firstElement left) (firstElement right) := by
  cases alike_of_same same with
  | list origin sameItems =>
    cases origin with
    | data => exact same
    | xml =>
      cases sameItems with
      | nil => exact same_of_isScalar rfl
      | cons sameFirst => exact sameFirst
  | _ => exact same

theorem same_collected (same : Forall₂ like.Same items others) :
    like.Same (collected items) (collected others) := by
  cases same with
  | nil => exact same_of_isScalar rfl
  | cons sameFirst sameRest =>
    cases sameRest with
    | nil => exact sameFirst
    | cons sameNext sameRest => exact same_list _ (.cons sameFirst (.cons sameNext sameRest))

theorem same_everyIn (name : String) (same : like.Same left right) :
    Forall₂ like.Same (everyIn name left) (everyIn name right) := by
  cases alike_of_same same with
  | object _ sameEntries =>
    simp only [everyIn]
    split
    · refine rel_flatMap sameEntries fun entry other sameEntry => ?_
      have sameValue := value_of_same sameEntry
      obtain ⟨_, _⟩ := entry
      obtain ⟨_, _⟩ := other
      cases alike_of_same sameValue with
      | list _ sameItems => exact sameItems
      | _ => exact .cons sameValue .nil
    · exact same_findings (same_entryAt sameEntries name)
  | _ => exact .nil

theorem same_every (name : String) (same : like.Same left right) :
    like.Same (every name left) (every name right) := by
  have sameFound := same_everyIn name same
  cases alike_of_same same with
  | null => exact same
  | list _ sameItems => exact same_list _ (rel_flatMap sameItems fun _ _ => same_everyIn name)
  | _ => exact same_list _ sameFound

theorem pickAll_along (picks : ∀ item ∈ items, ∀ {other}, like.Same item other →
        Alongside like.Same (pick name isAttribute item) (pick name isAttribute other))
    (same : Forall₂ like.Same items others) :
    Alongside (Forall₂ like.Same) (pickAll name isAttribute items)
      (pickAll name isAttribute others) := by
  induction same with
  | nil => exact .ok .nil
  | cons sameFirst _ ih =>
    rw [forall_mem_cons] at picks
    refine .bind (picks.1 sameFirst) fun found otherFound sameFound => ?_
    exact .bind (ih picks.2) fun more otherMore sameMore =>
      .ok (rel_append (same_findings sameFound) sameMore)

theorem lacking_along (name : String) (isAttribute : Bool) (kind : String) :
    Alongside like.Same (lacking name isAttribute kind) (lacking name isAttribute kind) := by
  cases isAttribute with
  | true => exact scalar_along rfl
  | false => exact .error _

theorem picked_along (part : Option Nat) (name : String) (isAttribute : Bool) (kind : String) :
    Alongside like.Same
      (match part.map partNumber with
        | some number => .ok number
        | none => lacking name isAttribute kind)
      (match part.map partNumber with
        | some number => .ok number
        | none => lacking name isAttribute kind) := by
  cases part with
  | some => exact scalar_along rfl
  | none => exact lacking_along name isAttribute kind

theorem hasPart_of_same (same : like.SameFunction callee other) (name : String) :
    callee.hasPart name = other.hasPart name := by
  have sameNames : callee.partNames = other.partNames := by
    rw [← like.keeps.partNames callee, same.seen, like.keeps.partNames]
  rw [Function.hasPart, Function.hasPart, sameNames]

theorem pick_along (name : String) (isAttribute : Bool) (same : like.Same left right) :
    Alongside like.Same (pick name isAttribute left) (pick name isAttribute right) := by
  induction left using Value.fromParts generalizing right with
  | step _ ih =>
    have kind := kindName_of_same same
    cases alike_of_same same with
    | null => exact .ok same
    | list _ sameItems =>
      exact .bind (pickAll_along ih sameItems) fun _ _ sameFound => .ok (same_collected sameFound)
    | object _ sameEntries =>
      cases isAttribute with
      | true => exact .ok (same_entryAt sameEntries name)
      | false => exact .ok (same_firstElement (same_entryAt sameEntries name))
    | date | clock | moment => exact picked_along _ name isAttribute _
    | @function callee other sameCallee =>
      have sameKind : callee.kindName = other.kindName := kind
      simp only [pick, hasPart_of_same sameCallee name, sameKind]
      split
      · exact .error _
      · exact lacking_along name isAttribute _
    | _ => exact lacking_along name isAttribute _

theorem select_along (selector : Selector) (same : like.Same left right) :
    Alongside like.Same (left.select selector) (right.select selector) := by
  cases selector with
  | key name => exact pick_along name false same
  | every name => exact .ok (same_every name same)
  | «attribute» name => exact pick_along ("@" ++ name) true same

theorem atPlace_along {α : Type} {make : α → Value}
    (isScalar : ∀ found, (make found).isScalar) (founds : List α) (place : Option Int) :
    Alongside like.Same (.ok ((place.bind (atPlace? (founds.map make))).getD .null))
      (.ok ((place.bind (atPlace? (founds.map make))).getD .null)) := by
  cases place with
  | none => exact scalar_along rfl
  | some place =>
    simp only [Option.bind_some, atPlace?]
    generalize (if place < 0 then _ else place) = index
    split
    · exact scalar_along rfl
    · exact .ok (same_getD (rel_getElem? (same_scalars isScalar founds) _))

theorem pickAt_along {index otherIndex : Value} (same : like.Same left right)
    (sameIndex : like.Same index otherIndex) :
    Alongside like.Same (left.pickAt index) (right.pickAt otherIndex) := by
  have samePlace : place? index = place? otherIndex := by
    cases alike_of_same sameIndex <;> rfl
  have sameInt := eq_of_kept toInt_onFunctions sameIndex
  cases alike_of_same same with
  | list _ sameItems | tuple sameItems =>
    simp only [pickAt, sameInt]
    split
    · split
      · exact scalar_along rfl
      · exact .ok (same_getD (rel_getElem? sameItems _))
    · split
      · exact scalar_along rfl
      · exact .error _
  | object _ sameEntries =>
    simp only [pickAt, toText_of_same sameIndex]
    exact .bind_same _ fun _ => .ok (same_entryAt sameEntries _)
  | text | bytes | buffer =>
    simp only [pickAt, samePlace]
    exact atPlace_along (fun _ => rfl) _ _
  | _ => exact scalar_along rfl

/-! ## Equality and order -/

/-- Functions are equal as their changed ones are, or the values do not both hold functions. -/
def Comparable (like : Likeness) (left right : Value) : Prop :=
  Function.KeepsSame like.change ∨ left.holdsFunction = false ∨ right.holdsFunction = false

/-- The values look the same, and comparing them with others does not tell functions apart. -/
structure SameKey (like : Likeness) (left right : Value) : Prop where
  same : like.Same left right
  comparable : Function.KeepsSame like.change ∨ left.holdsFunction = false

theorem Comparable.leftPart (comparable : like.Comparable left right) (isPart : part ∈ left.parts) :
    like.Comparable part right :=
  comparable.imp_right (.imp_left (data_of_mem_parts · part isPart))

theorem Comparable.rightPart (comparable : like.Comparable left right)
    (isPart : part ∈ right.parts) :
    like.Comparable left part :=
  comparable.imp_right (.imp_right (data_of_mem_parts · part isPart))

theorem sameItems_of_same (same :
      ∀ left ∈ lefts, ∀ right ∈ rights, ∀ {otherLeft otherRight}, like.Same left otherLeft →
        like.Same right otherRight → left.same right = otherLeft.same otherRight)
    (sameLefts : Forall₂ like.Same lefts otherLefts)
    (sameRights : Forall₂ like.Same rights otherRights) :
    sameItems lefts rights = sameItems otherLefts otherRights := by
  induction sameLefts generalizing rights otherRights with
  | nil => cases sameRights <;> simp [sameItems]
  | cons sameLeft _ ih =>
    cases sameRights with
    | nil => simp [sameItems]
    | cons sameRight sameRights =>
      simp only [forall_mem_cons] at same
      rw [sameItems, sameItems, same.1.1 sameLeft sameRight,
        ih (fun other mem => (same.2 other mem).2) sameRights]

theorem sameEntries_of_same {lefts rights : Entries} (same :
      ∀ left ∈ lefts.map (·.2), ∀ right ∈ rights.map (·.2), ∀ {otherLeft otherRight},
        like.Same left otherLeft → like.Same right otherRight →
          left.same right = otherLeft.same otherRight)
    (sameLefts : Forall₂ like.SameEntry lefts otherLefts)
    (sameRights : Forall₂ like.SameEntry rights otherRights) :
    sameEntries lefts rights = sameEntries otherLefts otherRights := by
  induction sameLefts with
  | nil => simp only [sameEntries]
  | @cons entry other _ _ sameEntry _ ih =>
    obtain ⟨key, _⟩ := entry
    obtain ⟨_, _⟩ := other
    obtain rfl : key = _ := key_of_same sameEntry
    rw [map_cons, forall_mem_cons] at same
    have sameFound := same_find? sameRights key
    rw [Entries.find?, Entries.find?] at sameFound
    rw [sameEntries, sameEntries, ih same.2]
    generalize isFound : rights.lookup key = found, otherRights.lookup key = other at sameFound ⊢
    cases sameFound with
    | none => rfl
    | some sameRight =>
      have mem := mem_map_of_mem (f := (·.2)) (mem_of_lookup isFound)
      simp only [same.1 _ mem (value_of_same sameEntry) sameRight]

section

variable {otherLeft otherRight : Value} (sameLeft : like.Same left otherLeft)
  (sameRight : like.Same right otherRight)

include sameLeft sameRight

/-- Values that do not both hold functions are compared without looking at functions. -/
theorem beq_of_same (comparable : like.Comparable left right) :
    (left == right) = (otherLeft == otherRight) := by
  change left.same right = otherLeft.same otherRight
  induction left using Value.fromParts generalizing right otherLeft otherRight with
  | step left ih =>
    have each :
        ∀ part ∈ left.parts, ∀ other ∈ right.parts, ∀ {otherPart otherOther},
          like.Same part otherPart → like.Same other otherOther →
            part.same other = otherPart.same otherOther :=
      fun part isPart other isOther _ _ samePart sameOther =>
        ih part isPart samePart sameOther ((comparable.leftPart isPart).rightPart isOther)
    cases alike_of_same sameLeft with
    | list _ sameLefts =>
      cases alike_of_same sameRight with
      | list _ sameRights =>
        rw [Value.same, Value.same]
        exact sameItems_of_same each sameLefts sameRights
      | _ => simp [Value.same, number?]
    | tuple sameLefts =>
      cases alike_of_same sameRight with
      | tuple sameRights =>
        rw [Value.same, Value.same]
        exact sameItems_of_same each sameLefts sameRights
      | _ => simp [Value.same, number?]
    | object _ sameLefts =>
      cases alike_of_same sameRight with
      | object _ sameRights =>
        rw [Value.same, Value.same, sameLefts.length_eq, sameRights.length_eq,
          sameEntries_of_same each sameLefts sameRights]
      | _ => simp [Value.same, number?]
    | function sameCallee =>
      cases alike_of_same sameRight with
      | function sameOther =>
        rcases comparable with keepsSame | impossible | impossible
        · rw [Value.same, Value.same, ← keepsSame, sameCallee.seen, sameOther.seen, keepsSame]
        · cases impossible
        · cases impossible
      | _ => simp [Value.same, number?]
    | _ => cases alike_of_same sameRight <;> simp [Value.same, number?]

omit sameLeft sameRight in
theorem compareItems_of_same {cmp : Comparison}
    (comparable : ∀ left ∈ lefts, ∀ right ∈ rights, like.Comparable left right) (ordered :
      ∀ left ∈ lefts, ∀ {right otherLeft otherRight}, like.Same left otherLeft →
        like.Same right otherRight → like.Comparable left right →
          left.compare cmp right = otherLeft.compare cmp otherRight)
    (sameLefts : Forall₂ like.Same lefts otherLefts)
    (sameRights : Forall₂ like.Same rights otherRights) :
    compareItems cmp lefts rights = compareItems cmp otherLefts otherRights := by
  induction sameLefts generalizing rights otherRights with
  | nil => cases sameRights <;> simp [compareItems]
  | cons sameLeft _ ih =>
    cases sameRights with
    | nil => simp [compareItems]
    | cons sameRight sameRights =>
      simp only [forall_mem_cons] at comparable ordered
      have sameFirst := beq_of_same sameLeft sameRight comparable.1.1
      simp only [BEq.beq] at sameFirst
      rw [compareItems, compareItems, sameFirst, ordered.1 sameLeft sameRight comparable.1.1,
        ih (fun other mem => (comparable.2 other mem).2) ordered.2 sameRights]

/-- Values that do not both hold functions have an order that functions do not change. -/
theorem compare_of_same (cmp : Comparison) (comparable : like.Comparable left right) :
    left.compare cmp right = otherLeft.compare cmp otherRight := by
  induction left using Value.fromParts generalizing right otherLeft otherRight with
  | step left ih =>
    have each : ∀ part ∈ left.parts, ∀ other ∈ right.parts, like.Comparable part other :=
      fun _ isPart _ isOther => (comparable.leftPart isPart).rightPart isOther
    cases alike_of_same sameLeft with
    | list _ sameLefts =>
      cases alike_of_same sameRight with
      | list _ sameRights =>
        exact compareItems_of_same each ih sameLefts sameRights
      | _ => simp [Value.compare, number?]
    | tuple sameLefts =>
      cases alike_of_same sameRight with
      | tuple sameRights =>
        exact compareItems_of_same each ih sameLefts sameRights
      | _ => simp [Value.compare, number?]
    | _ => cases alike_of_same sameRight <;> simp [Value.compare, number?]

theorem matchesValue_of_same (comparable : like.Comparable left right) :
    left.matchesValue right = otherLeft.matchesValue otherRight := by
  have sameWhole := beq_of_same sameLeft sameRight comparable
  have noElement := congrArg (· || false) sameWhole
  cases alike_of_same sameLeft with
  | list origin sameItems =>
    cases origin with
    | data => exact noElement
    | xml =>
      cases sameItems with
      | nil => exact noElement
      | cons sameOnly sameRest =>
        cases sameRest with
        | nil =>
          exact congrArg₂ (· || ·) sameWhole
            (beq_of_same sameOnly sameRight (comparable.leftPart mem_cons_self))
        | cons => exact noElement
  | _ => exact noElement

end

/-! ## Coercions -/

theorem isScalar_ofNumber (number : Number) : (Value.ofNumber number).isScalar := by
  cases number <;> rfl

theorem coerceNumber_along (same : like.Same left right) :
    Alongside like.Same (coerceNumber left) (coerceNumber right) := by
  have kind := kindName_of_same same
  cases alike_of_same same with
  | null | bool => exact scalar_along rfl
  | int => exact .bind_same _ fun _ => scalar_along rfl
  | float => exact scalar_along (isScalar_ofNumber _)
  | text =>
    simp only [coerceNumber]
    split
    · exact scalar_along rfl
    · split
      · exact scalar_along (isScalar_ofNumber _)
      · exact .error _
  | _ => exact .error_of_eq (by rw [kind])

theorem coerceText_along (same : like.Same left right) :
    Alongside like.Same (coerceText left) (coerceText right) := by
  have sameText := toText_of_same same
  cases alike_of_same same with
  | null | bool => exact scalar_along rfl
  | _ =>
    simp only [coerceText, sameText]
    exact scalars_along (fun _ => rfl) _

theorem coerceBoolean_along (same : like.Same left right) :
    Alongside like.Same (coerceBoolean left) (coerceBoolean right) := by
  have sameTruth := isTruthy_of_same same
  cases alike_of_same same with
  | null => exact scalar_along rfl
  | text =>
    simp only [coerceBoolean]
    split
    · exact scalar_along rfl
    · split
      · exact scalar_along rfl
      · exact .error _
  | _ =>
    simp only [coerceBoolean, sameTruth]
    exact scalar_along rfl

theorem coerceBinary_along (same : like.Same left right) :
    Alongside like.Same (coerceBinary left) (coerceBinary right) := by
  have kind := kindName_of_same same
  cases alike_of_same same with
  | null | text | bytes | buffer => exact scalar_along rfl
  | _ => exact .error_of_eq (by rw [kind])

theorem same_insertAll (same : Forall₂ like.SameEntry entries otherEntries)
    (sameAdditions : Forall₂ like.SameEntry additions otherAdditions) :
    Forall₂ like.SameEntry (entries.insertAll additions)
      (otherEntries.insertAll otherAdditions) := by
  refine rel_foldl (fun entries others same addition other sameAddition => ?_) same sameAdditions
  obtain ⟨key, _⟩ := addition
  obtain ⟨_, _⟩ := other
  obtain rfl : key = _ := key_of_same sameAddition
  exact same_insert key same (value_of_same sameAddition)

theorem same_textKeyed (same : Forall₂ like.SameEntry entries otherEntries) :
    Forall₂ like.SameEntry (textKeyed entries) (textKeyed otherEntries) := by
  refine same_insertAll .nil ?_
  refine forall₂_map_left_iff.mpr (forall₂_map_right_iff.mpr (same.imp fun entry other same => ?_))
  exact same_entry (by rw [key_of_same same]) (value_of_same same)

section

variable {item : Value → Except Fault Value}
  (along : ∀ {left right}, like.Same left right → Alongside like.Same (item left) (item right))

include along

theorem coerceObject_along (same : like.Same left right) :
    Alongside like.Same (coerceObject item left) (coerceObject item right) := by
  have kind := kindName_of_same same
  cases alike_of_same same with
  | object _ sameEntries =>
    have coerced := Alongside.mapM
      (fun entry other sameEntry =>
        Alongside.bind (along (value_of_same sameEntry)) fun found otherFound sameFound =>
          .ok (same_entry (key_of_same sameEntry) sameFound))
      sameEntries
    exact .bind coerced fun _ _ same => .ok (same_object _ (same_textKeyed same))
  | _ => exact .error_of_eq (by rw [kind])

theorem coerceTo_along (form : Form) (same : like.Same left right) :
    Alongside like.Same (coerceTo form item left) (coerceTo form item right) := by
  simp only [coerceTo, eq_of_kept isNull_onFunctions same]
  split
  · cases form with
    | array => exact .ok (same_list _ .nil)
    | object => exact .ok (same_object _ .nil)
    | _ => exact scalar_along rfl
  · cases form with
    | null => exact scalar_along rfl
    | number => exact coerceNumber_along same
    | text => exact coerceText_along same
    | boolean => exact coerceBoolean_along same
    | binary => exact coerceBinary_along same
    | array =>
      refine .bind (items_along same) fun items others sameItems => ?_
      exact .bind (.mapM (fun _ _ same => along same) sameItems) fun _ _ sameFound =>
        .ok (same_list _ sameFound)
    | object => exact coerceObject_along along same
    | any => exact .ok same

end

mutual

/-- Values that look the same are coerced to values that look the same. -/
theorem coerce_along : ∀ (target : TypeSpec) {left right : Value}, like.Same left right →
      Alongside like.Same (coerce target left) (coerce target right)
  | .mk _ generics, _, _, same => by
    simp only [coerce]
    exact coerceTo_along (coerceFirst_along generics) _ same
termination_by structural target => target

theorem coerceFirst_along :
    ∀ (generics : List TypeSpec) {left right : Value}, like.Same left right →
      Alongside like.Same (coerceFirst generics left) (coerceFirst generics right)
  | [], _, _, same => by
    simp only [coerceFirst]
    exact .ok same
  | spec :: _, _, _, same => by
    simp only [coerceFirst]
    exact coerce_along spec same
termination_by structural generics => generics

end

end Likeness

end Weave
