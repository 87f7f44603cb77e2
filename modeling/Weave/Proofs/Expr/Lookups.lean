import Mathlib.Data.List.Basic
import Weave.Eval.Template
import Weave.Eval.Context
import Weave.Proofs.Expr.Placeholder
import Weave.Proofs.Grammar.Written

namespace Weave

open List

/-!
# What an expression looks up

The names and placeholders that occur anywhere in an expression, and the variables that its
evaluation can ask for.  An expression that was read from a source and does not mention all
variables at once asks for its own names and placeholders only.
-/

namespace Expr

variable {α : Type}

mutual

/-- What the nodes of an expression hold, from the outside to the inside. -/
def gather (here : Expr → List α) : Expr → List α
  | .object fields => here (.object fields) ++ gatherFields here fields
  | .list elements => here (.list elements) ++ gatherAll here elements
  | .text value => here (.text value)
  | .template parts => here (.template parts) ++ gatherAll here parts
  | .number value => here (.number value)
  | .boolean value => here (.boolean value)
  | .null => here .null
  | .name word position => here (.name word position)
  | .placeholder level position => here (.placeholder level position)
  | .property base selector nullSafe =>
    here (.property base selector nullSafe) ++ gather here base
  | .index base place => here (.index base place) ++ gather here base ++ gather here place
  | .call function arguments =>
    here (.call function arguments) ++ gather here function ++ gatherAll here arguments
  | .orElse left right => here (.orElse left right) ++ gather here left ++ gather here right
  | .conditional condition whenTrue whenFalse =>
    here (.conditional condition whenTrue whenFalse) ++ gather here condition ++
      gather here whenTrue ++ gather here whenFalse
  | .lambda parameters body =>
    here (.lambda parameters body) ++ gatherParameters here parameters ++ gather here body
  | .matching subject cases =>
    here (.matching subject cases) ++ gather here subject ++ gatherCases here cases
  | .coercion value target options =>
    here (.coercion value target options) ++ gather here value ++ gatherOption here options

/-- What the nodes of expressions hold. -/
def gatherAll (here : Expr → List α) : List Expr → List α
  | [] => []
  | expr :: rest => gather here expr ++ gatherAll here rest

/-- What the nodes of keys and values hold. -/
def gatherFields (here : Expr → List α) : List (Expr × Expr) → List α
  | [] => []
  | (key, value) :: rest => gather here key ++ gather here value ++ gatherFields here rest

/-- What the nodes of an optional expression hold. -/
def gatherOption (here : Expr → List α) : Option Expr → List α
  | none => []
  | some expr => gather here expr

/-- What the nodes of the defaults of parameters hold. -/
def gatherParameters (here : Expr → List α) : List (Parameter Expr) → List α
  | [] => []
  | ⟨_, fallback, _⟩ :: rest => gatherOption here fallback ++ gatherParameters here rest

/-- What the nodes of cases hold. -/
def gatherCases (here : Expr → List α) : List (MatchCase Expr) → List α
  | [] => []
  | ⟨none, result⟩ :: rest => gather here result ++ gatherCases here rest
  | ⟨some ⟨_, matcher, guard⟩, result⟩ :: rest =>
    gatherOption here matcher ++ gatherOption here guard ++ gather here result ++
      gatherCases here rest

end

section

variable {here : Expr → List α} {found : α}

@[simp]
theorem mem_gatherAll :
    found ∈ gatherAll here exprs ↔ ∃ expr ∈ exprs, found ∈ expr.gather here := by
  induction exprs with
  | nil => simp [gatherAll]
  | cons _ _ ih => simp [gatherAll, ih]

@[simp]
theorem mem_gatherFields : found ∈ gatherFields here fields ↔
      ∃ field ∈ fields, found ∈ field.1.gather here ∨ found ∈ field.2.gather here := by
  induction fields with
  | nil => simp [gatherFields]
  | cons _ _ ih => simp [gatherFields, ih, or_assoc]

@[simp]
theorem mem_gatherOption :
    found ∈ gatherOption here option ↔ ∃ expr, option = some expr ∧ found ∈ expr.gather here := by
  cases option <;> simp [gatherOption]

@[simp]
theorem mem_gatherParameters : found ∈ gatherParameters here params ↔
      ∃ param ∈ params, ∃ fallback, param.fallback = some fallback ∧
        found ∈ fallback.gather here := by
  induction params with
  | nil => simp [gatherParameters]
  | cons _ _ ih => simp [gatherParameters, ih]

@[simp]
theorem mem_gatherCases : found ∈ gatherCases here cases ↔
      ∃ case ∈ cases, ∃ expr, IsInCase case expr ∧ found ∈ expr.gather here := by
  induction cases with
  | nil => simp [gatherCases]
  | cons case _ ih =>
    obtain ⟨pattern, _⟩ := case
    cases pattern with
    | none =>
      simp only [gatherCases, mem_append, ih, mem_cons, exists_eq_or_imp, exists_isInCase_none]
    | some =>
      simp only [gatherCases, mem_append, mem_gatherOption, ih,
        mem_cons, exists_eq_or_imp, exists_isInCase_some, or_assoc]

end

section

variable {here : Expr → List α} {found : α}

/-- What is gathered from an expression comes from its outermost node or from a child. -/
theorem mem_gather_iff {expr : Expr} : found ∈ expr.gather here ↔
      found ∈ here expr ∨ ∃ child, IsChild child expr ∧ found ∈ child.gather here := by
  rw [exists_isChild_iff]
  cases expr <;> simp [gather, SomeChild, or_assoc]

end

end Expr

/-- What an evaluation asks of a table of variables. -/
inductive Lookup where
  /-- The value of one variable. -/
  | named (name : String)
  /-- All variables. -/
  | all
  deriving Repr, DecidableEq

namespace Expr

/-- The name that a node is. -/
def nodeNames : Expr → List String
  | .name word _ => [word]
  | _ => []

/-- The names that occur anywhere in an expression. -/
def names : Expr → List String := gather nodeNames

/-- The level of the placeholder that a node is. -/
def nodeLevels : Expr → List Nat
  | .placeholder level _ => [level]
  | _ => []

/-- The levels of the placeholders that occur anywhere in an expression. -/
def levels : Expr → List Nat := gather nodeLevels

/-- What the evaluation of a node asks for; a text with interpolations can ask for anything. -/
def nodeLookups : Expr → List Lookup
  | .name word _ => if word = "vars" then [.all] else [.named word]
  | .placeholder level _ => [.named (Context.placeholderName level)]
  | .text value => if Text.cutAt? interpolationMark value.toList = none then [] else [.all]
  | _ => []

/-- What the evaluation of an expression can ask for. -/
def lookups : Expr → List Lookup := gather nodeLookups

theorem lookups_of_child {child expr : Expr} (isChild : IsChild child expr) :
    child.lookups ⊆ expr.lookups :=
  fun _ mem => mem_gather_iff.mpr (.inr ⟨child, isChild, mem⟩)

/-- The lookup is of a name or a placeholder that occurs in the expression. -/
def Accounts (expr : Expr) (lookup : Lookup) : Prop :=
  (∃ name ∈ expr.names, lookup = .named name) ∨
    ∃ level ∈ expr.levels, lookup = .named (Context.placeholderName level)

/-- An expression that was read asks for its names and its placeholders. -/
theorem accounts_of_isWritten {expr : Expr} (isWritten : expr.IsWritten)
    (noTable : "vars" ∉ expr.names) :
    ∀ lookup ∈ expr.lookups, expr.Accounts lookup := by
  refine
    @All.byChildren IsWrittenNode expr
      (fun expr => "vars" ∉ expr.names → ∀ lookup ∈ expr.lookups, expr.Accounts lookup) ?_
      isWritten noTable
  intro expr node inner noTable lookup mem
  rcases mem_gather_iff.mp mem with isHere | ⟨child, isChild, inChild⟩
  · cases expr with
    | name word pos =>
      have named : word ∈ names (.name word pos) := mem_singleton_self word
      have notTable : word ≠ "vars" := by
        rintro rfl
        exact noTable named
      simp only [nodeLookups, notTable, if_false, mem_singleton] at isHere
      exact .inl ⟨word, named, isHere⟩
    | placeholder level =>
      exact .inr ⟨level, mem_singleton_self level, mem_singleton.mp isHere⟩
    | text value =>
      have isPlain : Text.cutAt? interpolationMark value.toList = none := node
      simp [nodeLookups, isPlain] at isHere
    | _ => cases isHere
  · have within : "vars" ∉ child.names := fun inside =>
      noTable (mem_gather_iff.mpr (.inr ⟨child, isChild, inside⟩))
    rcases inner child isChild within lookup inChild with
      ⟨name, inNames, isName⟩ | ⟨level, inLevels, isLevel⟩
    · exact .inl ⟨name, mem_gather_iff.mpr (.inr ⟨child, isChild, inNames⟩), isName⟩
    · exact .inr ⟨level, mem_gather_iff.mpr (.inr ⟨child, isChild, inLevels⟩), isLevel⟩

end Expr

end Weave
