import Weave.Proofs.DataType.Semilattice

namespace Weave

open DataType List

/-!
# Types of sums of lists

A sum of two lists is the first one with the second as one more element, but its type is inferred
as if the elements of the second were added one by one.  So the type is right only if it allows for
the second list by chance: because one of the literals is empty, or because a list among the
elements of either is of a type that the second list has as well.
-/

variable {env : Environment} {setting : Setting} {ctx : Context} {value : Value}
  {type left right : DataType} {elements : List Expr}

/-! ## Values of unions -/

namespace DataType

theorem inhabits_of_option (isOption : option ∈ type.options) (inhabited : value.Inhabits option) :
    value.Inhabits type := by
  cases type with
  | union => exact .union isOption inhabited
  | _ => exact mem_singleton.mp isOption ▸ inhabited

theorem inhabits_array_iff {items : List Value} :
    (Value.array items).Inhabits (.array type) ↔ ∀ item ∈ items, item.Inhabits type :=
  ⟨fun inhabited => by cases inhabited; assumption, .array⟩

theorem exists_items (inhabited : value.Inhabits (.array type)) :
    ∃ items, value = .array items ∧ ∀ item ∈ items, item.Inhabits type := by
  cases inhabited with
  | array inhabited => exact ⟨_, rfl, inhabited⟩

/-- A union of two normal types has no further values. -/
theorem inhabits_union_iff (leftNormal : left.IsNormal) :
    value.Inhabits (unionOf [left, right]) ↔ value.Inhabits left ∨ value.Inhabits right := by
  constructor
  · have ofOption {option : DataType} (isOption : option ∈ once ([left, right].flatMap options))
        (inhabited : value.Inhabits option) :
        value.Inhabits left ∨ value.Inhabits right := by
      rw [mem_once, flatMap_options_pair] at isOption
      rcases mem_append.mp isOption with inLeft | inRight
      · exact .inl (inhabits_of_option inLeft inhabited)
      · exact .inr (inhabits_of_option inRight inhabited)
    intro inhabited
    unfold unionOf at inhabited
    split at inhabited
    · rename_i isNil
      obtain ⟨option, isOption⟩ := exists_mem_of_ne_nil _ (options_ne_nil leftNormal)
      have isMember : option ∈ once ([left, right].flatMap options) := by simp [isOption]
      cases isNil ▸ isMember
    · rename_i only isOnly
      exact ofOption (isOnly ▸ mem_singleton_self only) inhabited
    · split at inhabited
      · rename_i hasAny
        exact ofOption (contains_iff_mem.mp hasAny) (.any value)
      · cases inhabited with
        | union isOption inhabited => exact ofOption isOption inhabited
  · rintro (inLeft | inRight)
    · exact inhabits_unionOf mem_cons_self inLeft
    · exact inhabits_unionOf (.tail _ (.head _)) inRight

theorem inhabits_unionFrom_iff (areNormal : ∀ type ∈ first :: rest, type.IsNormal) :
    value.Inhabits (unionFrom first rest) ↔ ∃ type ∈ first :: rest, value.Inhabits type := by
  unfold unionFrom
  induction rest generalizing first with
  | nil => simp
  | cons _ _ ih =>
    simp only [forall_mem_cons] at areNormal
    obtain ⟨firstNormal, secondNormal, othersNormal⟩ := areNormal
    rw [foldl_cons, ih (forall_mem_cons.mpr
      ⟨isNormal_union_pair firstNormal secondNormal, othersNormal⟩)]
    simp [inhabits_union_iff firstNormal, or_assoc]

end DataType

/-! ## Literals -/

/-- Scalars, and lists of literals. -/
inductive Expr.IsLiteral : Expr → Prop
  | null : IsLiteral .null
  | boolean (value : Bool) : IsLiteral (.boolean value)
  | number (value : Float) : IsLiteral (.number value)
  | text (value : String) : IsLiteral (.text value)
  | list {elements : List Expr} (areLiterals : ∀ element ∈ elements, IsLiteral element) :
      IsLiteral (.list elements)

namespace Expr.IsLiteral

variable {expr : Expr}

theorem isSound (isLiteral : expr.IsLiteral) : expr.IsSound setting ctx env := by
  induction isLiteral with
  | null => exact .null
  | boolean value => exact .boolean value
  | number value => exact .number value
  | text value => exact .text value
  | list _ areSound => exact .list areSound

theorem isNormal (isLiteral : expr.IsLiteral) : (infer env expr).IsNormal := by
  induction isLiteral with
  | null => exact .null
  | boolean => exact .boolean
  | number => exact .number
  | text => exact .text
  | @list elements _ areNormal =>
    simp only [infer, inferAll_eq_map]
    cases elements with
    | nil => exact .array .any
    | cons =>
      rw [forall_mem_cons] at areNormal
      exact .array (isNormal_unionFrom areNormal.1 (forall_mem_map.mpr areNormal.2))

/-- A list is only of the types of lists. -/
theorem eq_list_of_array {items : List Value} (isLiteral : expr.IsLiteral)
    (inhabited : (Value.array items).Inhabits (infer env expr)) :
    ∃ elements, expr = .list elements := by
  cases isLiteral with
  | list => exact ⟨_, rfl⟩
  | _ => cases inhabited

end Expr.IsLiteral

/-- The elements of a list literal have a type, whose values are those of the types of the single
elements. -/
theorem infer_list (areLiterals : ∀ element ∈ elements, element.IsLiteral) :
    ∃ type, infer env (.list elements) = .array type ∧ type.IsNormal ∧
      ∀ value : Value, value.Inhabits type ↔
        elements = [] ∨ ∃ element ∈ elements, value.Inhabits (infer env element) := by
  simp only [infer, inferAll_eq_map]
  cases elements with
  | nil => exact ⟨.any, rfl, .any, fun value => by simp [Value.Inhabits.any]⟩
  | cons first rest =>
    have areNormal : ∀ type ∈ (first :: rest).map (infer env), type.IsNormal :=
      forall_mem_map.mpr fun element mem => (areLiterals element mem).isNormal
    refine ⟨_, rfl, isNormal_unionFrom (areNormal _ (.head _)) (forall_mem_cons.mp areNormal).2,
      fun value => ?_⟩
    rw [inhabits_unionFrom_iff areNormal]
    simp

/-! ## Sums -/

/-- The sum of two list literals is of the inferred type only if one of them is empty or a list
among the elements of either is of a type that the right list has.  The type of lists with the right
list as one more element is always right. -/
theorem Session.list_sum_typed_iff (script : Script) (position : Position) (left right : List Expr)
    (payloadType varsType : DataType) (setting : Setting) (ctx : Context) (value : Value)
    (isSum : script.body = .call (.name "_binary_plus" position) [.list left, .list right])
    (areLiterals : ∀ element ∈ left ++ right, element.IsLiteral)
    (evals : (script.body.eval setting ctx).result = .ok value) :
    let environment := (script.functionTypes payloadType varsType).declare script.header.bindings
    ∃ (items appended : List Value) (element : DataType),
      value = .array (items ++ [.array appended]) ∧
      infer environment (.list left) = .array element ∧
      value.Inhabits (.array (unionOf [element, infer environment (.list right)])) ∧
      (value.Inhabits (ofScript payloadType varsType script) ↔
        left = [] ∨ right = [] ∨
          ∃ inner, .list inner ∈ left ++ right ∧
            (Value.array appended).Inhabits (infer environment (.list inner))) := by
  intro environment
  obtain ⟨leftLiterals, rightLiterals⟩ := forall_mem_append.mp areLiterals
  rw [isSum] at evals
  obtain ⟨shallower, leftValue, rightValue, place, leftEvaluated, rightEvaluated, added⟩ :=
    Engine.plus_of_eval evals
  obtain ⟨leftType, isLeft, leftNormal, leftValues⟩ := @infer_list environment _ leftLiterals
  obtain ⟨rightType, isRight, _, rightValues⟩ := @infer_list environment _ rightLiterals
  have leftInhabited :=
    isLeft ▸ (Expr.IsLiteral.list leftLiterals).isSound shallower leftValue leftEvaluated
  have rightInhabited :=
    isRight ▸ (Expr.IsLiteral.list rightLiterals).isSound shallower rightValue rightEvaluated
  obtain ⟨items, rfl, itemsInhabited⟩ := exists_items leftInhabited
  obtain ⟨appended, rfl, _⟩ := exists_items rightInhabited
  have isAppended :
      Core.plus (.array items) (.array appended) place =
        .ok (.array (items ++ [.array appended])) :=
    rfl
  obtain rfl := Except.ok.inj (isAppended.symm.trans added)
  have isInferred :
      ofScript payloadType varsType script = .array (unionOf [leftType, rightType]) := by
    change infer environment script.body = _
    simp only [isSum, infer, inferAll_eq_map, map_cons] at isLeft isRight ⊢
    simp only [callOf, isLeft, isRight]
    rfl
  have inUnion (other : DataType) (item : Value) (isItem : item ∈ items) :
      item.Inhabits (unionOf [leftType, other]) :=
    inhabits_unionOf mem_cons_self (itemsInhabited item isItem)
  refine ⟨items, appended, leftType, rfl, isLeft, ?_, ?_⟩
  · rw [inhabits_array_iff, forall_mem_append, forall_mem_singleton]
    exact ⟨inUnion _, inhabits_unionOf (.tail _ (.head _)) (isRight ▸ rightInhabited)⟩
  · rw [isInferred, inhabits_array_iff, forall_mem_append, forall_mem_singleton,
      and_iff_right (inUnion _), inhabits_union_iff leftNormal, leftValues, rightValues]
    have isList {element : Expr} (member : element ∈ left ++ right)
        (inhabited : (Value.array appended).Inhabits (infer environment element)) :
        ∃ inner, .list inner ∈ left ++ right ∧
          (Value.array appended).Inhabits (infer environment (.list inner)) := by
      obtain ⟨inner, rfl⟩ := (areLiterals element member).eq_list_of_array inhabited
      exact ⟨inner, member, inhabited⟩
    constructor
    · rintro ((isEmpty | ⟨element, member, inhabited⟩) | isEmpty | ⟨element, member, inhabited⟩)
      · exact .inl isEmpty
      · exact .inr (.inr (isList (mem_append_left _ member) inhabited))
      · exact .inr (.inl isEmpty)
      · exact .inr (.inr (isList (mem_append_right _ member) inhabited))
    · rintro (isEmpty | isEmpty | ⟨inner, member, inhabited⟩)
      · exact .inl (.inl isEmpty)
      · exact .inr (.inl isEmpty)
      · rcases mem_append.mp member with inLeft | inRight
        · exact .inl (.inr ⟨_, inLeft, inhabited⟩)
        · exact .inr (.inr ⟨_, inRight, inhabited⟩)

/-- A sum of two lists of scalars. -/
def Script.scalarSum : Script :=
  ⟨Header.plain, .call (.name "_binary_plus" ⟨1, 8⟩) [.list [.boolean true], .list [.text "x"]]⟩

theorem Session.list_sum_typed_iff_scalars :
    (Script.scalarSum.body.eval ⟨⟨"", 0⟩, []⟩ ⟨.null, [], 0⟩).result =
        .ok (.array [.bool true, .array [.text "x"]]) ∧
      ofScript .any .any .scalarSum = .array (.union [.boolean, .text]) ∧
      ¬ (Value.array [.bool true, .array [.text "x"]]).Inhabits
        (.array (.union [.boolean, .text])) ∧
      (Value.array [.bool true, .array [.text "x"]]).Inhabits
        (.array (.union [.boolean, .array .text])) := by
  have evals :
      (Script.scalarSum.body.eval ⟨⟨"", 0⟩, []⟩ ⟨.null, [], 0⟩).result =
        .ok (.array [.bool true, .array [.text "x"]]) :=
    rfl
  have areLiterals :
      ∀ element ∈ [Expr.boolean true] ++ [Expr.text "x"], element.IsLiteral := by
    simp [Expr.IsLiteral.boolean, Expr.IsLiteral.text]
  obtain ⟨_, _, _, _, ⟨⟩, isRight, isTyped⟩ :=
    Session.list_sum_typed_iff .scalarSum ⟨1, 8⟩ _ _ .any .any _ _ _ rfl areLiterals evals
  refine ⟨evals, rfl, ?_, isRight⟩
  intro inhabited
  simpa using isTyped.mp inhabited

end Weave
