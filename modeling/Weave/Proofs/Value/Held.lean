import Weave.Proofs.Exchange.Values
import Weave.Proofs.Outcome.Leaves

namespace Weave

open List

/-!
# The functions that a value holds

A property of functions holds throughout a value if all functions that the value holds have it.
-/

variable {value : Value} {origin : Origin} {items : List Value}

/-! ## The functions of a value -/

namespace Value

mutual

/-- The functions that a value holds, from left to right. -/
def functions : Value → List Function
  | .list _ items | .tuple items => functionsIn items
  | .object _ entries => functionsUnder entries
  | .function callee => [callee]
  | _ => []

/-- The functions that items hold. -/
def functionsIn : List Value → List Function
  | [] => []
  | item :: rest => functions item ++ functionsIn rest

/-- The functions that the values of entries hold. -/
def functionsUnder : List (Key × Value) → List Function
  | [] => []
  | (_, value) :: rest => functions value ++ functionsUnder rest

end

attribute [local simp] functions

@[simp]
theorem functionsIn_eq_flatMap (items : List Value) :
    functionsIn items = items.flatMap functions := by
  induction items with
  | nil => rfl
  | cons _ _ ih => rw [functionsIn, ih, flatMap_cons]

@[simp]
theorem functionsUnder_eq_flatMap (entries : List (Key × Value)) :
    functionsUnder entries = entries.flatMap fun entry => entry.2.functions := by
  induction entries with
  | nil => rfl
  | cons _ _ ih => rw [functionsUnder, ih, flatMap_cons]

theorem functions_of_isScalar (isScalar : value.isScalar) : value.functions = [] := by
  cases value <;> first | rfl | cases isScalar

/-- A value whose functions are all left as they are is left as it is. -/
theorem onFunctions_of_fixed (fixed : ∀ callee ∈ value.functions, change callee = callee) :
    value.onFunctions change = value := by
  induction value using Value.byParts with
  | scalar _ isScalar => exact onFunctions_of_isScalar change isScalar
  | list origin items ih | tuple items ih =>
    simp only [functions, functionsIn_eq_flatMap, mem_flatMap] at fixed
    rw [onFunctions, onFunctionsAll_eq_map]
    congr
    refine (map_congr_left fun item mem => ?_).trans (map_id items)
    exact ih item mem fun callee held => fixed callee ⟨item, mem, held⟩
  | object _ entries ih =>
    simp only [functions, functionsUnder_eq_flatMap, mem_flatMap] at fixed
    rw [onFunctions, onFunctionsEntries_eq_map]
    congr
    refine (map_congr_left fun entry mem => ?_).trans (map_id entries)
    have same := ih entry mem fun callee held => fixed callee ⟨entry, mem, held⟩
    exact Prod.ext rfl same
  | function callee => exact congrArg Value.function (fixed callee mem_cons_self)

end Value

/-! ## Values with good functions only -/

/-- All functions that the value holds have the property. -/
def Value.All (holds : Function → Prop) (value : Value) : Prop :=
  ∀ callee ∈ value.functions, holds callee

/-- All functions that are held under keys or names have the property. -/
def AllUnder {κ : Type} (holds : Function → Prop) (pairs : List (κ × Value)) : Prop :=
  ∀ pair ∈ pairs, pair.2.All holds

variable {holds : Function → Prop} {value : Value}

namespace Value

theorem all_of_isScalar (isScalar : value.isScalar) : value.All holds := by
  simp [All, functions_of_isScalar isScalar]

theorem all_of_areScalars {α : Type} {make : α → Value}
    (isScalar : ∀ found, (make found).isScalar) (founds : List α) :
    ∀ item ∈ founds.map make, item.All holds := by
  intro item mem
  obtain ⟨found, _, rfl⟩ := mem_map.mp mem
  exact all_of_isScalar (isScalar found)

@[simp]
theorem all_list : (Value.list origin items).All holds ↔ ∀ item ∈ items, item.All holds := by
  simp only [All, functions, functionsIn_eq_flatMap, mem_flatMap]
  exact ⟨fun all item mem callee held => all callee ⟨item, mem, held⟩,
    fun all callee ⟨item, mem, held⟩ => all item mem callee held⟩

@[simp]
theorem all_tuple : (Value.tuple items).All holds ↔ ∀ item ∈ items, item.All holds :=
  @all_list .data items _

@[simp]
theorem all_object : (Value.object origin entries).All holds ↔ AllUnder holds entries := by
  simp only [All, functions, functionsUnder_eq_flatMap, mem_flatMap]
  exact ⟨fun all entry mem callee held => all callee ⟨entry, mem, held⟩,
    fun all callee ⟨entry, mem, held⟩ => all entry mem callee held⟩

@[simp]
theorem all_function : (Value.function callee).All holds ↔ holds callee := by
  simp [All, functions]

end Value

namespace AllUnder

variable {κ : Type} {pairs : List (κ × Value)} {entries : Entries} {bindings : Bindings}

@[simp]
theorem nil : AllUnder holds ([] : List (κ × Value)) :=
  fun _ mem => absurd mem not_mem_nil

@[simp]
theorem cons {pair : κ × Value} :
    AllUnder holds (pair :: pairs) ↔ pair.2.All holds ∧ AllUnder holds pairs :=
  forall_mem_cons

theorem lookup [BEq κ] [LawfulBEq κ] (all : AllUnder holds pairs)
    (found : pairs.lookup key = some value) :
    value.All holds := by
  obtain ⟨front, back, rfl, _⟩ := lookup_eq_some_iff.mp found
  exact all (key, value) (by simp)

theorem setPair [DecidableEq κ] (all : AllUnder holds pairs) (key : κ) (isGood : value.All holds) :
    AllUnder holds (Weave.setPair pairs key value) := by
  intro pair mem
  rcases mem_setPair mem with rfl | isOld
  · exact isGood
  · exact all pair isOld

theorem insert (all : AllUnder holds entries) (key : Key) (isGood : value.All holds) :
    AllUnder holds (entries.insert key value) :=
  all.setPair key isGood

theorem ofList (all : AllUnder holds entries) : AllUnder holds (Entries.ofList entries) :=
  fun pair mem => all pair (Entries.mem_ofList mem)

theorem set (all : AllUnder holds bindings) (name : String) (isGood : value.All holds) :
    AllUnder holds (bindings.set name value) :=
  all.setPair name isGood

theorem setNew (all : AllUnder holds bindings) (name : String) (isGood : value.All holds) :
    AllUnder holds (bindings.setNew name value) := by
  unfold Bindings.setNew
  split
  · exact all
  · exact all.set name isGood

theorem setAll (all : AllUnder holds bindings) (additionsAll : AllUnder holds additions) :
    AllUnder holds (bindings.setAll additions) := by
  induction additions generalizing bindings with
  | nil => exact all
  | cons addition _ ih =>
    rw [cons] at additionsAll
    exact ih (all.set addition.1 additionsAll.1) additionsAll.2

theorem toObject (all : AllUnder holds bindings) : bindings.toObject.All holds := by
  refine Value.all_object.mpr fun entry mem => ?_
  obtain ⟨binding, isBinding, rfl⟩ := mem_map.mp mem
  exact all binding isBinding

end AllUnder

end Weave
