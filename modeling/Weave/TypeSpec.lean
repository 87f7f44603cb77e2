namespace Weave

/-!
# Type specifications

A type as it is written: a name with further types in angle brackets.
-/

/-- A written type with its arguments. -/
inductive TypeSpec where
  | mk (name : String) (generics : List TypeSpec)
  deriving Repr, Inhabited

namespace TypeSpec

def name : TypeSpec → String
  | .mk name _ => name

def generics : TypeSpec → List TypeSpec
  | .mk _ generics => generics

mutual

/-- Two specifications with the same names throughout. -/
def same : TypeSpec → TypeSpec → Bool
  | .mk left lefts, .mk right rights => left == right && sameAll lefts rights

/-- Two lists of specifications that agree in length and member by member. -/
def sameAll : List TypeSpec → List TypeSpec → Bool
  | [], [] => true
  | left :: lefts, right :: rights => same left right && sameAll lefts rights
  | _, _ => false

end

instance : BEq TypeSpec :=
  ⟨same⟩

end TypeSpec

end Weave
