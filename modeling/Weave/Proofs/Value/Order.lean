import Mathlib
import Weave.Value.Order

namespace Weave

/-!
# The order of numbers and texts

Numbers are compared by their places, so integers have their usual order and equality is transitive.
Texts are ordered by the codes of their characters, which is the order that strings have.
-/

/-! ## Numbers -/

namespace Number

theorem compare?_int (left right : Int) :
    compare? (.int left) (.int right) = some (compare left right) := by
  have positive (power : Nat) : (0 : Int) < Decimal.twoTo power :=
    Int.natCast_pos.mpr (Nat.two_pow_pos power)
  have scaled := cmp_mul_pos_right (positive 1074) left right
  rw [cmp_eq_compare, cmp_eq_compare] at scaled
  exact congrArg some scaled

theorem Place.order_eq_eq {left right : Place} : left.order right = .eq ↔ left = right := by
  cases left <;> cases right <;> simp [Place.order]

/-- Numbers are equal if they have the same place; an undefined one has none. -/
theorem same_iff {left right : Number} :
    left.same right ↔ ∃ place, left.place? = some place ∧ right.place? = some place := by
  rw [same, compare?, beq_iff_eq]
  cases left.place? with
  | none => simp
  | some leftPlace =>
    cases right.place? with
    | none => simp
    | some rightPlace => simpa [Place.order_eq_eq] using eq_comm

theorem exists_place {value : Float} (isDefined : value.isNaN = false) :
    ∃ place, (Number.float value).place? = some place := by
  rw [place?]
  cases Decimal.toExact value with
  | some => exact ⟨_, rfl⟩
  | none => exact ⟨_, if_neg (ne_true_of_eq_false isDefined)⟩

end Number

/-! ## Texts -/

theorem orderLists_eq (left right : List Char) :
    orderLists (fun left right => compare left.toNat right.toNat) left right =
      compareOfLessAndEq left right := by
  induction left generalizing right with
  | nil => cases right <;> simp [orderLists, compareOfLessAndEq]
  | cons first _ ih =>
    cases right with
    | nil => simp [orderLists, compareOfLessAndEq]
    | cons other =>
      have before : first < other ↔ first.toNat < other.toNat := UInt32.lt_iff_toNat_lt
      simp only [orderLists, ih, compareOfLessAndEq, List.cons_lt_cons_iff, List.cons.injEq, before,
        ← Char.toNat_inj]
      rcases Nat.lt_trichotomy first.toNat other.toNat with less | same | greater
      · simp [Nat.compare_eq_lt.mpr less, less]
      · simp [same]
      · simp [Nat.compare_eq_gt.mpr greater, greater.not_gt, greater.ne']

theorem orderTexts_eq (left right : String) :
    orderTexts left right = compareOfLessAndEq left right := by
  simp only [orderTexts, orderLists_eq, compareOfLessAndEq, String.lt_iff_toList_lt,
    String.toList_inj]

theorem orderTexts_ne_gt (left right : String) :
    (orderTexts left right != .gt) = decide (left ≤ right) := by
  rw [orderTexts_eq, Bool.eq_iff_iff, bne_iff_ne, decide_eq_true_eq, ne_eq,
    compareOfLessAndEq_eq_gt le_antisymm le_total not_le, not_lt]

theorem pairwise_mergeSort_texts (text : α → String) (items : List α) :
    (items.mergeSort fun left right => orderTexts (text left) (text right) != .gt).Pairwise
      fun left right => text left ≤ text right := by
  simp only [orderTexts_ne_gt]
  refine (List.pairwise_mergeSort ?_ ?_ items).imp of_decide_eq_true
  · intro first second third
    simpa only [decide_eq_true_eq] using le_trans
  · intro first second
    simpa only [Bool.or_eq_true, decide_eq_true_eq] using le_total (text first) (text second)

end Weave
