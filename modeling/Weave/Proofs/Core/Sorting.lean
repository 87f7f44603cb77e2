import Weave.Proofs.Exchange.Arrangement
import Weave.Proofs.Value.Order

namespace Weave

open List

/-!
# Stable sorting

A sort keeps all items and puts them in order.  It compares an item only with those that stood
before it, so items of equal rank stay as they were: what they are ordered by is the rank and then
the place.
-/

namespace Sorting

variable {α κ : Type} [LinearOrder κ] {position : α → κ} {less : α → α → Except Fault Bool}
  {items done rest sorted : List α} {item : α}

/-- The items in the order of their positions. -/
structure Sorts (position : α → κ) (items ordered : List α) : Prop where
  whole : ordered ~ items
  inOrder : ordered.Pairwise (position · ≤ position ·)

/-- Halving finds the place behind all items that do not come after one. -/
theorem placeWithin_eq (inOrder : sorted.Pairwise (position · ≤ position ·))
    (compares : ∀ other ∈ sorted, less item other = .ok (decide (position item < position other)))
    (enough : high - low < fuel) (isBelow : low ≤ high) (inside : high ≤ sorted.length)
    (below : ∀ other ∈ sorted.take low, position other ≤ position item)
    (above : ∀ other ∈ sorted.drop high, position item < position other) :
    ∃ index, placeWithin less sorted item fuel low high = .ok index ∧
      (∀ other ∈ sorted.take index, position other ≤ position item) ∧
      ∀ other ∈ sorted.drop index, position item < position other := by
  induction fuel generalizing low high with
  | zero => omega
  | succ _ ih =>
    rw [placeWithin]
    by_cases isOpen : low < high
    · generalize isMiddle : low + (high - low) / 2 = middle
      have isInside : middle < sorted.length := by omega
      have behind := drop_eq_getElem_cons isInside
      have parts := inOrder
      rw [← take_append_drop middle sorted, behind, pairwise_append, pairwise_cons] at parts
      simp only [isOpen, if_true, getElem?_eq_getElem isInside, compares _ (getElem_mem isInside),
        bind, Except.bind, decide_eq_true_eq]
      split
      · rename_i isLess
        refine ih (by omega) (by omega) (by omega) below ?_
        rw [behind, forall_mem_cons]
        exact ⟨isLess, fun other mem => isLess.trans_le (parts.2.1.1 other mem)⟩
      · rename_i notLess
        refine ih (by omega) (by omega) inside ?_ above
        rw [← take_concat_get' _ _ isInside, forall_mem_append, forall_mem_singleton]
        have isLeast := le_of_not_gt notLess
        exact ⟨fun other mem => (parts.2.2 other mem _ mem_cons_self).trans isLeast, isLeast⟩
    · obtain rfl : low = high := by omega
      exact ⟨low, by simp; rfl, below, above⟩

theorem Sorts.place (sorts : Sorts position done sorted) (compares : ∀ other ∈ done,
      less item other = .ok (decide (position item < position other))) :
    ∃ ordered, place less sorted item = .ok ordered ∧ Sorts position (done ++ [item]) ordered := by
  obtain ⟨index, isPlace, below, above⟩ := placeWithin_eq sorts.inOrder
    (fun other mem => compares other (sorts.whole.subset mem)) (Nat.lt_succ_self sorted.length)
    (Nat.zero_le _) (Nat.le_refl _) (by simp) (by simp)
  have parts := take_append_drop index sorted
  have inOrder := sorts.inOrder
  rw [← parts, pairwise_append] at inOrder
  refine ⟨_, by rw [Sorting.place, isPlace]; rfl, ?_, ?_⟩
  · refine perm_middle.trans ?_
    rw [parts]
    exact (sorts.whole.cons item).trans (perm_append_singleton item done).symm
  · rw [pairwise_append, pairwise_cons]
    refine ⟨inOrder.1, ⟨fun other mem => (above other mem).le, inOrder.2.1⟩, fun left isLeft => ?_⟩
    exact forall_mem_cons.mpr ⟨below left isLeft, inOrder.2.2 left isLeft⟩

/-- An item can be compared with those that stood before it. -/
def Compares (less : α → α → Except Fault Bool) (position : α → κ) (items : List α) : Prop :=
  items.Pairwise fun earlier later =>
    less later earlier = .ok (decide (position later < position earlier))

theorem Sorts.placeAll (sorts : Sorts position done sorted)
    (compares : Compares less position (done ++ rest)) : ∃ ordered,
      placeAll less sorted rest = .ok ordered ∧ Sorts position (done ++ rest) ordered := by
  induction rest generalizing done sorted with
  | nil => exact ⟨sorted, rfl, by rwa [append_nil]⟩
  | cons item _ ih =>
    obtain ⟨_, isPlaced, sorts⟩ := sorts.place fun other mem =>
      (pairwise_append.mp compares).2.2 other mem item mem_cons_self
    rw [append_cons] at compares ⊢
    obtain ⟨ordered, areOrdered, sorts⟩ := ih sorts compares
    exact ⟨ordered, by rw [Sorting.placeAll, isPlaced]; exact areOrdered, sorts⟩

/-- A run ends at the first item that does not follow the one before it. -/
theorem runFrom_eq {follows : α → α → Bool} {last : α}
    (answers : (last :: items).Pairwise fun earlier later =>
      goesOn later earlier = .ok (follows earlier later)) :
    ∃ run others, runFrom goesOn last items = .ok (run, others) ∧ run ++ others = items ∧
      (last :: run).IsChain (follows · ·) := by
  induction items generalizing last with
  | nil => exact ⟨[], [], rfl, rfl, .singleton last⟩
  | cons item rest ih =>
    obtain ⟨isAnswer, answers⟩ := pairwise_cons.mp answers
    simp only [runFrom, isAnswer item mem_cons_self, bind, Except.bind]
    split
    · rename_i isNext
      obtain ⟨run, others, isRun, rfl, chain⟩ := ih answers
      exact ⟨item :: run, others, by rw [isRun]; rfl, rfl, chain.cons_cons isNext⟩
    · exact ⟨[], item :: rest, rfl, rfl, .singleton last⟩

theorem leadingRun_sorts (compares : Compares less position items) :
    ∃ front run others, leadingRun less items = .ok (run, others) ∧ front ++ others = items ∧
      Sorts position front run := by
  match items, compares with
  | [], _ => exact ⟨[], [], [], rfl, rfl, .refl _, .nil⟩
  | [item], _ => exact ⟨[item], [item], [], rfl, rfl, .refl _, pairwise_singleton ..⟩
  | first :: second :: rest, compares =>
    obtain ⟨isAnswer, answers⟩ := pairwise_cons.mp compares
    rw [leadingRun, isAnswer second mem_cons_self]
    by_cases isLess : position second < position first
    · obtain ⟨run, others, isRun, rfl, chain⟩ := runFrom_eq answers
      refine ⟨first :: second :: run, _, others, by rw [isRun, decide_eq_true isLess]; rfl, rfl,
        reverse_perm _, pairwise_reverse.mpr ?_⟩
      have descends : (first :: second :: run).IsChain (position · > position ·) :=
        .cons_cons isLess (chain.imp fun _ _ => of_decide_eq_true)
      exact (isChain_iff_pairwise.mp descends).imp le_of_lt
    · obtain ⟨run, others, isRun, rfl, chain⟩ :=
        @runFrom_eq _ _ (fun item last => do return !(← less item last))
          (fun earlier later => !decide (position later < position earlier)) _
          (answers.imp fun isAnswer => by rw [isAnswer]; rfl)
      refine ⟨_, first :: second :: run, others, by rw [isRun, decide_eq_false isLess]; rfl, rfl,
        .refl _, ?_⟩
      rw [← isChain_iff_pairwise]
      exact .cons_cons (le_of_not_gt isLess) (chain.imp fun _ _ isNext => by simpa using isNext)

theorem sortBy_sorts (compares : Compares less position items) :
    ∃ ordered, sortBy less items = .ok ordered ∧ Sorts position items ordered := by
  obtain ⟨_, _, _, isRun, rfl, sorts⟩ := leadingRun_sorts compares
  rw [sortBy, isRun]
  exact sorts.placeAll compares

/-! ## Places -/

/-- The rank of an item, and then the place where it stands. -/
def placed (rank : α × Nat → κ) (item : α × Nat) : κ ×ₗ Nat :=
  toLex (rank item, item.2)

theorem zipIdx_increases (items : List α) :
    items.zipIdx.Pairwise fun earlier later => earlier.2 < later.2 := by
  rw [← pairwise_map, zipIdx_map_snd]
  exact pairwise_lt_range'

/-- Items that stand beside anything are sorted by their ranks and places, if an item comes before
one that stood before it for its rank only. -/
theorem sortBy_zipIdx {rank : α × Nat → κ} (less : β → β → Except Fault Bool) (beside : α × Nat → β)
    (compares : ∀ earlier later : α × Nat, earlier.2 < later.2 →
      less (beside later) (beside earlier) = .ok (decide (rank later < rank earlier)))
    (items : List α) :
    ∃ ordered, Sorts (placed rank) items.zipIdx ordered ∧
      sortBy less (items.zipIdx.map beside) = .ok (ordered.map beside) := by
  obtain ⟨ordered, isSorted, sorts⟩ :=
    @sortBy_sorts _ _ _ (placed rank) (fun left right => less (beside left) (beside right))
      items.zipIdx ((zipIdx_increases items).imp fun isBefore => by
        simp [compares _ _ isBefore, placed, Prod.Lex.toLex_lt_toLex, isBefore.not_gt])
  have along : Alongside (Forall₂ fun other item => other = beside item) _ _ :=
    @sortBy_along β _ _ less (fun left right => less (beside left) (beside right))
      (by rintro _ _ _ _ rfl rfl; rfl) (items.zipIdx.map beside) items.zipIdx
      (forall₂_map_left_iff.mpr (forall₂_same.mpr fun _ _ => rfl))
  rw [isSorted] at along
  generalize sortBy less _ = result at along ⊢
  cases along with
  | ok same =>
    have areSame : Forall₂ Eq _ (ordered.map beside) := forall₂_map_right_iff.mpr same
    rw [forall₂_eq_eq_eq] at areSame
    exact ⟨ordered, sorts, congrArg Except.ok areSame⟩

/-- Items that are in order stay as they are. -/
theorem Sorts.again {key : α → κ} {ordered others : List (α × Nat)}
    (sorts : Sorts (placed (key ·.1)) items.zipIdx ordered)
    (again : Sorts (placed (key ·.1)) (ordered.map (·.1)).zipIdx others) :
    others.map (·.1) = ordered.map (·.1) := by
  have ranked : ((ordered.map (·.1)).zipIdx.map (·.1)).Pairwise (key · ≤ key ·) := by
    rw [zipIdx_map_fst, pairwise_map]
    exact sorts.inOrder.imp fun before => Prod.Lex.monotone_fst _ _ before
  have inOrder : (ordered.map (·.1)).zipIdx.Pairwise (placed (key ·.1) · ≤ placed (key ·.1) ·) :=
    ((pairwise_map.mp ranked).and (zipIdx_increases _)).imp fun both =>
      Prod.Lex.toLex_mono ⟨both.1, both.2.le⟩
  have same : others = (ordered.map (·.1)).zipIdx := by
    refine again.whole.eq_of_pairwise
      (fun left right isLeft isRight le ge => ?_) again.inOrder inOrder
    have place : left.2 = right.2 := congrArg (ofLex · |>.2) (le_antisymm le ge)
    rw [again.whole.mem_iff, mem_zipIdx_iff_getElem?] at isLeft
    rw [mem_zipIdx_iff_getElem?, ← place, isLeft] at isRight
    exact Prod.ext (Option.some.inj isRight) place
  rw [same, zipIdx_map_fst]

end Sorting

namespace Core

open Sorting

variable {κ : Type} [LinearOrder κ] {kind : κ → Value} {call : Caller} {callee : Function}

/-- Kinds of values that are ordered. -/
inductive IsKind : (κ : Type) → [LinearOrder κ] → (κ → Value) → Prop
  | int : IsKind Int .int
  | text : IsKind String .text

theorem IsKind.less_eq (isKind : IsKind κ kind) (left right : κ) :
    (kind left).less (kind right) = .ok (decide (left < right)) ∧
      (kind left).same (kind right) = decide (left = right) := by
  cases isKind with
  | int =>
    constructor
    · simp [Value.less, Value.compare, Value.number?, Number.compare?_int, Comparison.holdsIf,
        Comparison.holds, ← compare_lt_iff_lt, Bool.beq_eq_decide_eq]
    · rw [Bool.eq_iff_iff]
      simp [Value.same, Value.number?, Number.same, Number.compare?_int]
  | text =>
    have isLess : left < right ↔ orderTexts left right = .lt := by
      rw [orderTexts_eq, compareOfLessAndEq_eq_lt]
    exact ⟨by simp only [isLess]; rfl, Value.same.eq_2 left right⟩

theorem IsKind.numberedLess_eq (isKind : IsKind κ kind) {left right : κ} {before after : Nat}
    (isBefore : before < after) : numberedLess (kind left, after) (kind right, before) =
      .ok (decide (left < right)) := by
  rw [numberedLess, (isKind.less_eq left right).1, (isKind.less_eq left right).2]
  by_cases same : left = right
  · simp [same, isBefore.not_gt]
  · simp [same]

/-- A list is put in the order of the keys of its items, and items with equal keys stay as they
were. -/
theorem IsKind.orderBy_list (isKind : IsKind κ kind) (origin : Origin) {items : List Value}
    {rank : Value × Nat → κ} (answers : ∀ item ∈ items.zipIdx,
      (invoke call (.function callee) (numbered item)).result = .ok (kind (rank item))) :
    ∃ ordered, Sorts (placed rank) items.zipIdx ordered ∧
      (orderBy call (.list origin items) (.function callee)).result =
        .ok (.array (ordered.map (·.1))) := by
  have areKeyed := Outcome.result_each_eq_ok.mpr (forall₂_map_right_iff.mpr (forall₂_same.mpr
    fun item mem => Outcome.result_bind_of_ok (answers item mem)
      fun found => (pure (found, item.2, item.1) : Outcome (Value × Nat × Value))))
  obtain ⟨ordered, sorts, isSorted⟩ := sortBy_zipIdx
    (fun left right => numberedLess (left.1, left.2.1) (right.1, right.2.1))
    (fun item => (kind (rank item), item.2, item.1)) (fun _ _ => isKind.numberedLess_eq) items
  refine ⟨ordered, sorts, (Outcome.result_bind_of_ok areKeyed _).trans ?_⟩
  refine (Outcome.result_bind_of_ok isSorted _).trans ?_
  rw [map_map]
  rfl

theorem IsKind.orderBy_object (isKind : IsKind κ kind) (origin : Origin) {entries : Entries}
    {key : Key × Value → κ} (answers : ∀ entry ∈ entries,
      (invoke call (.function callee) [entry.2, entry.1.toValue]).result = .ok (kind (key entry))) :
    ∃ ordered, Sorts (placed (key ·.1)) entries.zipIdx ordered ∧
      (orderBy call (.object origin entries) (.function callee)).result =
        .ok (.record (ordered.map (·.1))) := by
  have areKeyed := Outcome.result_each_eq_ok.mpr (forall₂_map_right_iff.mpr (forall₂_same.mpr
    fun entry mem => Outcome.result_bind_of_ok (answers entry mem)
      fun found => (pure (found, entry) : Outcome (Value × Key × Value))))
  obtain ⟨ordered, sorts, isSorted⟩ := sortBy_zipIdx (fun left right => left.1.less right.1)
    (fun entry => (kind (key entry.1), entry.1)) (fun _ _ _ => (isKind.less_eq _ _).1) entries
  rw [← Function.comp_def (fun entry => (kind (key entry), entry)) Prod.fst, ← map_map,
    zipIdx_map_fst] at isSorted
  refine ⟨ordered, sorts, (Outcome.result_bind_of_ok areKeyed _).trans ?_⟩
  rw [sortKeyed, isSorted]
  exact congrArg (Except.ok ∘ Value.record) map_map

/-- Lists and objects are put in the order of the keys that a function gives their items, which may
be integers or texts, and items with equal keys stay as they were.  What is ordered is not changed
by ordering it again, provided that an item of a list has one key in all places. -/
theorem orderBy_sorts_stably (isKind : IsKind κ kind) (call : Caller) (callee : Function)
    (origin : Origin) :
    (∀ (items : List Value) (rank : Value × Nat → κ),
      (∀ item ∈ items.zipIdx,
        (invoke call (.function callee) (numbered item)).result = .ok (kind (rank item))) →
      ∃ ordered, Sorts (placed rank) items.zipIdx ordered ∧
        (orderBy call (.list origin items) (.function callee)).result =
          .ok (.array (ordered.map (·.1)))) ∧
    (∀ (items : List Value) (key : Value → κ),
      (∀ item ∈ items, ∀ place,
        (invoke call (.function callee) (numbered (item, place))).result = .ok (kind (key item))) →
      ∃ result, (orderBy call (.list origin items) (.function callee)).result = .ok result ∧
        (orderBy call result (.function callee)).result = .ok result) ∧
    ∀ (entries : Entries) (key : Key × Value → κ),
      (∀ entry ∈ entries,
        (invoke call (.function callee) [entry.2, entry.1.toValue]).result =
          .ok (kind (key entry))) →
      ∃ ordered, Sorts (placed (key ·.1)) entries.zipIdx ordered ∧
        let result : Value := .record (ordered.map (·.1))
        (orderBy call (.object origin entries) (.function callee)).result = .ok result ∧
        (orderBy call result (.function callee)).result = .ok result := by
  refine ⟨fun items rank answers => isKind.orderBy_list origin answers,
    fun items key answers => ?_, fun entries key answers => ?_⟩
  · obtain ⟨ordered, sorts, isOrdered⟩ := isKind.orderBy_list origin
      fun item mem => answers item.1 (fst_mem_of_mem_zipIdx mem) item.2
    have within := (sorts.whole.map Prod.fst).subset
    rw [zipIdx_map_fst] at within
    obtain ⟨others, again, isAgain⟩ := isKind.orderBy_list .data
      fun item mem => answers item.1 (within (fst_mem_of_mem_zipIdx mem)) item.2
    rw [sorts.again again] at isAgain
    exact ⟨_, isOrdered, isAgain⟩
  · obtain ⟨ordered, sorts, isOrdered⟩ := isKind.orderBy_object origin answers
    have within := (sorts.whole.map Prod.fst).subset
    rw [zipIdx_map_fst] at within
    obtain ⟨_, again, isAgain⟩ := isKind.orderBy_object .data
      fun entry mem => answers entry (within mem)
    rw [sorts.again again] at isAgain
    exact ⟨ordered, sorts, isOrdered, isAgain⟩

/-- The values of the entries are their keys, two of them equal. -/
theorem orderBy_sorts_stably_values :
    let entries : Entries := [(.text "a", .int 2), (.text "b", .int 1), (.text "c", .int 1)]
    let key (entry : Key × Value) : Int := if entry.1 = .text "a" then 2 else 1
    let call : Caller := fun _ arguments => .value (arguments.headD .null)
    ∃ ordered, Sorts (placed (key ·.1)) entries.zipIdx ordered ∧
      (orderBy call (.record entries) (.function (.plus 1 1))).result =
        .ok (.record (ordered.map (·.1))) := by
  intro entries key call
  obtain ⟨ordered, sorts, isOrdered, _⟩ :=
    (orderBy_sorts_stably .int call (.plus 1 1) .data).2.2 entries key
      (by simp [entries, key, call, invoke, Outcome.value, Function.parameterCount?])
  exact ⟨ordered, sorts, isOrdered⟩

end Core

end Weave
