import Weave.Proofs.Value.Conforms

namespace Weave

/-!
# Coercions of what was coerced

What a coercion leaves is of the form that it asks for, so the same coercion leaves it alone.  For
numbers this rests on the range of floats: the whole numbers among them are never too large to be
read as floats again.
-/

namespace Decimal

/-- No float is too large to be one. -/
theorem truncated_lt_floatLimit {exact : Exact} (isExact : toExact value = some exact) :
    exact.truncated.natAbs < floatLimit := by
  have bounded : exact.magnitude ≤ twoTo 53 - 1 ∧ exact.power.toNat ≤ 971 := by
    simp only [toExact] at isExact
    simp only [twoTo, Nat.pow_eq, beq_iff_eq] at *
    split at isExact
    · cases isExact
    · split at isExact <;> cases isExact <;> constructor <;> dsimp only <;> omega
  have grows {small large : Nat} (le : small ≤ large) : twoTo small ≤ twoTo large :=
    Nat.pow_le_pow_right (Nat.succ_pos 1) le
  calc
    exact.truncated.natAbs = exact.numerator / exact.denominator := by
      rw [Exact.truncated, signed]
      split
      · rw [Int.natAbs_neg, Int.natAbs_natCast]
      · exact Int.natAbs_natCast _
    _ ≤ exact.numerator := Nat.div_le_self _ _
    _ ≤ (twoTo 53 - 1) * twoTo 971 := Nat.mul_le_mul bounded.1 (grows bounded.2)
    _ < floatLimit := by decide +kernel

end Decimal

namespace Value

theorem coerceNumber_int {number : Int} (isSmall : number.natAbs < Decimal.floatLimit) :
    coerceNumber (.int number) = .ok (.int number) := by
  simp only [coerceNumber, Number.toFloat, if_neg (Nat.not_le.mpr isSmall)]
  rfl

/-- A number that was made simple stays as it is. -/
theorem coerceNumber_simpleNumber (number : Float) :
    coerceNumber (simpleNumber number) = .ok (simpleNumber number) := by
  have unchanged (isFloat : Number.simplify number = .float number) :
      coerceNumber (simpleNumber number) = .ok (simpleNumber number) := by
    rw [simpleNumber, isFloat]
    exact congrArg (fun simple => Except.ok (ofNumber simple)) isFloat
  cases isExact : Decimal.toExact number with
  | none => exact unchanged (by rw [Number.simplify, isExact])
  | some exact =>
    cases isWhole : exact.isWhole with
    | false => exact unchanged (by simp [Number.simplify, isExact, isWhole])
    | true =>
      have isInt : simpleNumber number = .int exact.truncated := by
        simp [simpleNumber, Number.simplify, isExact, isWhole, ofNumber]
      rw [isInt, coerceNumber_int (Decimal.truncated_lt_floatLimit isExact)]

theorem coerceNumber_settles (value : Value) :
    Leaves (fun found => coerceNumber found = .ok found) (coerceNumber value) := by
  cases value with
  | null => exact .ok rfl
  | bool truth =>
    apply Leaves.ok
    cases truth <;> exact coerceNumber_int (by decide +kernel)
  | int =>
    intro found coerced
    obtain ⟨nearest, _, rest⟩ := except_bind_eq_ok.mp coerced
    obtain rfl := Except.ok.inj rest
    exact coerced
  | float number => exact .ok (coerceNumber_simpleNumber number)
  | text =>
    unfold coerceNumber
    dsimp only
    split
    · exact .ok rfl
    · split
      · exact .ok (coerceNumber_simpleNumber _)
      · exact .error _
  | _ => exact .error _

theorem mapM_settled {α : Type} {compute : α → Except Fault α} {items : List α}
    (settled : ∀ item ∈ items, compute item = .ok item) :
    items.mapM compute = .ok items := by
  induction items with
  | nil => rfl
  | cons _ _ ih =>
    rw [List.forall_mem_cons] at settled
    rw [List.mapM_cons, settled.1, ih settled.2]
    rfl

theorem textKeyed_settled {entries : Entries} (areTexts : ∀ entry ∈ entries, entry.1.isText)
    (unique : (entries.map Prod.fst).Nodup) :
    textKeyed entries = entries := by
  have same : entries.map (fun entry => (Key.text entry.1.shown, entry.2)) = entries := by
    refine (List.map_congr_left fun entry mem => ?_).trans (List.map_id entries)
    have isText := areTexts entry mem
    obtain ⟨key, value⟩ := entry
    cases key with
    | text => rfl
    | missing => cases isText
  calc
    textKeyed entries = Entries.ofList entries := congrArg Entries.ofList same
    _ = entries := Entries.ofList_of_nodup unique

section Items

variable {item : Value → Except Fault Value}
  (settles : ∀ value, Leaves (fun found => item found = .ok found) (item value))

include settles

theorem coerceArray_settles (value : Value) :
    Leaves (fun found => coerceArray item found = .ok found) (coerceArray item value) := by
  refine (coerceArray_leaves settles value).imp ?_
  rintro _ ⟨items, rfl, settled⟩
  exact congrArg (Except.map array) (mapM_settled settled)

theorem coerceObject_settles (value : Value) :
    Leaves (fun found => coerceObject item found = .ok found) (coerceObject item value) := by
  refine (coerceObject_leaves settles value).imp ?_
  rintro _ ⟨entries, rfl, unique, formed⟩
  refine except_bind_eq_ok.mpr ⟨entries, mapM_settled fun entry mem => ?_, ?_⟩
  · exact congrArg (Except.map (entry.1, ·)) (formed entry mem).2
  · have sameKeys := textKeyed_settled (fun entry mem => (formed entry mem).1) unique
    exact congrArg (fun entries => Except.ok (record entries)) sameKeys

theorem coerceTo_settles (form : Form) (value : Value) :
    Leaves (fun found => coerceTo form item found = .ok found) (coerceTo form item value) := by
  intro found coerced
  have unchanged : value = found → coerceTo form item found = .ok found := by
    rintro rfl
    exact coerced
  unfold coerceTo at coerced
  split at coerced
  · obtain rfl := Except.ok.inj coerced
    cases form <;> rfl
  · cases form with
    | null =>
      obtain rfl := Except.ok.inj coerced
      rfl
    | number =>
      have settled := coerceNumber_settles value found coerced
      cases found <;> exact settled
    | text =>
      have isText := coerceText_leaves value found coerced
      cases found with
      | null | text => rfl
      | _ => cases isText
    | boolean =>
      have isBool := coerceBoolean_leaves value found coerced
      cases found with
      | null | bool => rfl
      | _ => cases isBool
    | binary =>
      have isBytes := coerceBinary_leaves value found coerced
      cases found with
      | null | bytes => rfl
      | _ => cases isBytes
    | array =>
      have settled := coerceArray_settles settles value found coerced
      cases found <;> exact settled
    | object =>
      have settled := coerceObject_settles settles value found coerced
      cases found with
      | null => cases settled
      | _ => exact settled
    | any => exact unchanged (Except.ok.inj coerced)

end Items

mutual

theorem coerce_settles : ∀ (type : TypeSpec) (value : Value),
      Leaves (fun found => coerce type found = .ok found) (coerce type value)
  | .mk name generics, value => by
    unfold coerce
    exact coerceTo_settles (coerceFirst_settles generics) _ value
termination_by structural type => type

theorem coerceFirst_settles : ∀ (generics : List TypeSpec) (value : Value),
      Leaves (fun found => coerceFirst generics found = .ok found) (coerceFirst generics value)
  | [], value => by
    unfold coerceFirst
    exact .ok rfl
  | type :: _, value => by
    unfold coerceFirst
    exact coerce_settles type value
termination_by structural generics => generics

end

/-- Coercion is idempotent: a value that was brought into the form of a type stays as it is when it
is coerced to the type once more, also by a script that gives options with the type. -/
theorem coerce_idempotent (type : TypeSpec) (value found : Value)
    (coerced : coerce type value = .ok found) :
    coerce type found = .ok found ∧
      ∀ (engine : Engine) (ctx : Context) (expr : Expr) (options : Option Expr),
        (engine.eval ctx expr).result = .ok found →
          (∀ given ∈ options, ∃ chosen, (engine.eval ctx given).result = .ok chosen) →
            (Eval.step engine ctx (.coercion expr type options)).result = .ok found := by
  have settled := coerce_settles type value found coerced
  refine ⟨settled, fun engine ctx expr options evals given => ?_⟩
  unfold Eval.step
  rw [Outcome.result_bind_of_ok evals]
  cases options with
  | none => exact settled
  | some options =>
    obtain ⟨chosen, isChosen⟩ := given options rfl
    rw [Outcome.result_bind_of_ok isChosen]
    exact settled

/-- A row with cells that have no name, as an object of lists of numbers. -/
theorem coerce_idempotent_row : let type : TypeSpec := .mk "Object" [.mk "array" [.mk "NUMBER" []]]
    let row := record [(.missing, .array [.bool true, .text " "]), (.text "b", .null)]
    let found := record [(.text "None", .array [.int 1, .null]), (.text "b", .array [])]
    coerce type row = .ok found ∧ coerce type found = .ok found := by
  intro type row found
  have coerced : coerce type row = .ok found := rfl
  exact ⟨coerced, (coerce_idempotent type row found coerced).1⟩

end Value

end Weave
