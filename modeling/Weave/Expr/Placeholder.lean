import Weave.Expr

namespace Weave.Expr

/-!
# Placeholders

An argument with placeholders stands for a function of the values that they name.  The
placeholders of a lambda inside the argument belong to that lambda.
-/

mutual

def hasPlaceholder (wanted : Nat → Bool) : Expr → Bool
  | .placeholder level _ => wanted level
  | .object fields => fieldsHavePlaceholder wanted fields
  | .list elements | .template elements => someHasPlaceholder wanted elements
  | .property base _ _ => hasPlaceholder wanted base
  | .index base place => hasPlaceholder wanted base || hasPlaceholder wanted place
  | .call function arguments =>
    hasPlaceholder wanted function || someHasPlaceholder wanted arguments
  | .orElse left right => hasPlaceholder wanted left || hasPlaceholder wanted right
  | .conditional condition whenTrue whenFalse =>
    hasPlaceholder wanted condition || hasPlaceholder wanted whenTrue ||
      hasPlaceholder wanted whenFalse
  | .matching subject cases => hasPlaceholder wanted subject || casesHavePlaceholder wanted cases
  | .coercion value _ options =>
    hasPlaceholder wanted value || optionHasPlaceholder wanted options
  | .text _ | .number _ | .boolean _ | .null | .name .. | .lambda .. => false

def someHasPlaceholder (wanted : Nat → Bool) : List Expr → Bool
  | [] => false
  | expr :: rest => hasPlaceholder wanted expr || someHasPlaceholder wanted rest

def fieldsHavePlaceholder (wanted : Nat → Bool) : List (Expr × Expr) → Bool
  | [] => false
  | (key, value) :: rest =>
    hasPlaceholder wanted key || hasPlaceholder wanted value ||
      fieldsHavePlaceholder wanted rest

def optionHasPlaceholder (wanted : Nat → Bool) : Option Expr → Bool
  | some expr => hasPlaceholder wanted expr
  | none => false

def casesHavePlaceholder (wanted : Nat → Bool) : List (MatchCase Expr) → Bool
  | [] => false
  | ⟨none, result⟩ :: rest => hasPlaceholder wanted result || casesHavePlaceholder wanted rest
  | ⟨some ⟨_, matcher, guard⟩, result⟩ :: rest =>
    optionHasPlaceholder wanted matcher || optionHasPlaceholder wanted guard ||
      hasPlaceholder wanted result || casesHavePlaceholder wanted rest

end

/-- The functions whose second argument may be an expression with placeholders. -/
def takesPlaceholders : List String :=
  ["_infix_map", "_infix_filter", "_infix_flatMap", "_infix_reduce", "_infix_distinctBy", "map",
    "filter", "flatMap", "reduce", "distinctBy"]

/-- Whether the argument at a place of a call stands for a function. -/
def isImplicitFunction (function argument : Expr) (place : Nat) : Bool :=
  match function, argument with
  | _, .lambda .. => false
  | .name word _, argument =>
    place == 1 && takesPlaceholders.contains word && argument.hasPlaceholder fun _ => true
  | _, _ => false

end Weave.Expr
