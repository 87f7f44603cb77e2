import Weave.Proofs.Eval.Sight

open List

namespace Weave

/-!
# Functions without what they do not ask for

A lambda holds all variables of the place it was written in, but asks for a few of them only.  Two
functions are alike if they are equal once the variables that they never ask for are forgotten.
-/

/-! ## Forgetting -/

namespace Bindings

/-- The variables that are asked for, in the order in which they are. -/
def seen (lookups : List Lookup) (bindings : Bindings) : Bindings :=
  if .all ∈ lookups then bindings
  else
    lookups.filterMap fun lookup =>
      match lookup with
      | .named name => (bindings.find? name).map fun value => (name, value)
      | .all => none

theorem find?_seen (isAsked : .named name ∈ lookups) (bindings : Bindings) :
    (bindings.seen lookups).find? name = bindings.find? name := by
  have found :
      ∀ lookups : List Lookup,
        lookup name
            (lookups.filterMap fun lookup =>
              match lookup with
              | .named name => (bindings.find? name).map fun value => (name, value)
              | .all => none) =
          if .named name ∈ lookups then bindings.find? name else none := by
    intro lookups
    induction lookups with
    | nil => rfl
    | cons lookup _ ih =>
      cases lookup with
      | all => simp [ih]
      | named other =>
        cases isFound : bindings.find? other with
        | none =>
          by_cases isSame : name = other
          · subst isSame
            simp [isFound, ih]
          · simp [isFound, ih, isSame]
        | some =>
          by_cases isSame : name = other
          · subst isSame
            simp [isFound]
          · simp [isFound, lookup_cons_eq_ite, ih, isSame]
  unfold seen
  split
  · rfl
  · exact (found lookups).trans (if_pos isAsked)

theorem find?_setNew (bindings : Bindings) (name other : String) (value : Value) :
    (bindings.setNew name value).find? other =
      if other = name then some ((bindings.find? name).getD value) else bindings.find? other := by
  unfold setNew
  split
  · rename_i found isFound
    split
    · rename_i isSame
      rw [isSame, isFound, Option.getD_some]
    · rfl
  · rename_i isNew
    rw [find?_set, isNew, Option.getD_none]

/-- Of two tables the same is seen if what is asked for is found in both. -/
theorem seen_eq_iff {left right : Bindings} : left.seen lookups = right.seen lookups ↔
      (.all ∈ lookups → left = right) ∧
        ∀ name, .named name ∈ lookups → left.find? name = right.find? name := by
  constructor
  · intro same
    refine ⟨fun isAll => by simpa [seen, isAll] using same, fun name isAsked => ?_⟩
    rw [← find?_seen isAsked left, ← find?_seen isAsked right, same]
  · rintro ⟨whole, found⟩
    unfold seen
    split
    · rename_i isAll
      exact whole isAll
    · refine filterMap_congr fun lookup mem => ?_
      cases lookup with
      | all => rfl
      | named name => simp only [found name mem]

theorem arranges_seen : Arranges seen where
  fewer isSubset same := by
    rw [seen_eq_iff] at same ⊢
    exact ⟨fun isAll => same.1 (isSubset isAll), fun name isAsked => same.2 name (isSubset isAsked)⟩
  found isAsked same := (seen_eq_iff.mp same).2 _ isAsked
  whole isAll same := (seen_eq_iff.mp same).1 isAll
  set name value same := by
    rw [seen_eq_iff] at same ⊢
    refine ⟨fun isAll => by rw [same.1 (by simpa using isAll)], fun wanted isAsked => ?_⟩
    rw [find?_set, find?_set]
    split
    · rfl
    · rename_i differs
      exact same.2 wanted (by simpa [differs] using isAsked)
  setNew name value same := by
    rw [seen_eq_iff] at same ⊢
    refine ⟨fun isAll => by rw [same.1 isAll], fun wanted isAsked => ?_⟩
    rw [find?_setNew, find?_setNew]
    split
    · rename_i isSame
      rw [isSame] at isAsked
      rw [same.2 name isAsked]
    · exact same.2 wanted isAsked

end Bindings

mutual

/-- A function without the variables that it never asks for. -/
def Function.forget : Function → Function
  | .lambda parameters body captured payload =>
    .lambda parameters body
      (Bindings.seen (Expr.lookups (.lambda parameters body)) (forgetVariables captured))
      (forgetValue payload)
  | .implicit body captured payload usesSecond =>
    .implicit body (Bindings.seen body.lookups (forgetVariables captured)) (forgetValue payload)
      usesSecond
  | callee => callee

/-- A value whose functions forget what they never ask for. -/
def forgetValue : Value → Value
  | .list origin items => .list origin (forgetItems items)
  | .tuple items => .tuple (forgetItems items)
  | .object origin entries => .object origin (forgetEntries entries)
  | .function callee => .function (Function.forget callee)
  | value => value

/-- Items whose functions forget what they never ask for. -/
def forgetItems : List Value → List Value
  | [] => []
  | item :: rest => forgetValue item :: forgetItems rest

/-- Entries whose functions forget what they never ask for. -/
def forgetEntries : List (Key × Value) → List (Key × Value)
  | [] => []
  | (key, value) :: rest => (key, forgetValue value) :: forgetEntries rest

/-- Variables whose functions forget what they never ask for. -/
def forgetVariables : List (String × Value) → List (String × Value)
  | [] => []
  | (name, value) :: rest => (name, forgetValue value) :: forgetVariables rest

end

theorem forgetValue_eq (value : Value) : forgetValue value = value.onFunctions Function.forget := by
  have all :
      ∀ items : List Value, (∀ item ∈ items, forgetValue item = item.onFunctions Function.forget) →
        forgetItems items = items.map (Value.onFunctions Function.forget) := by
    intro items same
    induction items with
    | nil => rfl
    | cons _ _ ih =>
      rw [forall_mem_cons] at same
      rw [forgetItems, same.1, ih same.2, map_cons]
  induction value using Value.byParts with
  | scalar value isScalar =>
    cases value <;> first | rfl | cases isScalar
  | list origin items ih | tuple items ih =>
    simp only [forgetValue, Value.onFunctions, Value.onFunctionsAll_eq_map, all items ih]
  | object _ entries ih =>
    have same : forgetEntries entries = entries.map (onEntryFunctions Function.forget) := by
      induction entries with
      | nil => rfl
      | cons _ _ others =>
        rw [forall_mem_cons] at ih
        rw [forgetEntries, ih.1, others ih.2]
        rfl
    simp only [forgetValue, Value.onFunctions, Value.onFunctionsEntries_eq_map, same]
  | function => rfl

theorem forgetVariables_eq_map (bindings : Bindings) :
    forgetVariables bindings = bindings.map (onVariable Function.forget) := by
  induction bindings with
  | nil => rfl
  | cons _ _ ih =>
    rw [forgetVariables, ih, forgetValue_eq]
    rfl

theorem Function.keepsSort_forget : Function.KeepsSort Function.forget where
  kindName callee := by cases callee <;> rfl
  partNames callee := by cases callee <;> rfl
  isMember callee := by cases callee <;> rfl
  parameterCount? callee := by cases callee <;> rfl

/-- The sight that shows of a table what is asked for, and all functions. -/
def Sight.forgetting : Sight where
  change := Function.forget
  holds := fun _ => True
  keeps := Function.keepsSort_forget
  arrange := Bindings.seen
  fine := fun _ => True
  headers := fun _ _ => True
  arranges := Bindings.arranges_seen
  change_lambda := fun _ _ _ _ => by rw [Function.forget, forgetVariables_eq_map, forgetValue_eq]
  change_implicit := fun _ _ _ _ => by rw [Function.forget, forgetVariables_eq_map, forgetValue_eq]
  change_of_holdsNone := fun {callee} holdsNone => by
    cases callee <;> first | rfl | cases holdsNone
  holds_builtin := fun _ => trivial
  holds_plus := fun _ _ => trivial
  holds_lambda := by simp [AllUnder, Value.All]
  holds_implicit := by simp [AllUnder, Value.All]
  holds_declared := fun _ => trivial
  holds_overloaded := fun _ _ _ => trivial
  holds_dispatch := fun _ _ _ => trivial
  fine_child := fun _ _ => trivial
  fine_header := fun _ => trivial
  fine_parsed := fun _ => trivial

end Weave
