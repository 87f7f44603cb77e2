import Weave.Script

namespace Weave

/-!
# Equality of expressions

Two expressions are the same when their trees agree, positions included.  Numbers
are compared as numbers.
-/

namespace Expr

mutual

def same : Expr → Expr → Bool
  | .object left, .object right => sameFields left right
  | .list left, .list right => sameAll left right
  | .text left, .text right => left == right
  | .template left, .template right => sameAll left right
  | .number left, .number right => left == right
  | .boolean left, .boolean right => left == right
  | .null, .null => true
  | .name left leftPlace, .name right rightPlace => left == right && leftPlace == rightPlace
  | .placeholder left leftPlace, .placeholder right rightPlace =>
    left == right && leftPlace == rightPlace
  | .property leftBase left leftSafe, .property rightBase right rightSafe =>
    same leftBase rightBase && left == right && leftSafe == rightSafe
  | .index leftBase left, .index rightBase right => same leftBase rightBase && same left right
  | .call left lefts, .call right rights => same left right && sameAll lefts rights
  | .orElse left leftOther, .orElse right rightOther =>
    same left right && same leftOther rightOther
  | .conditional left leftTrue leftFalse, .conditional right rightTrue rightFalse =>
    same left right && same leftTrue rightTrue && same leftFalse rightFalse
  | .lambda lefts left, .lambda rights right => sameParameters lefts rights && same left right
  | .matching left lefts, .matching right rights => same left right && sameCases lefts rights
  | .coercion left leftType leftOptions, .coercion right rightType rightOptions =>
    same left right && leftType == rightType && sameOption leftOptions rightOptions
  | _, _ => false

def sameAll : List Expr → List Expr → Bool
  | [], [] => true
  | left :: lefts, right :: rights => same left right && sameAll lefts rights
  | _, _ => false

def sameFields : List (Expr × Expr) → List (Expr × Expr) → Bool
  | [], [] => true
  | (leftKey, left) :: lefts, (rightKey, right) :: rights =>
    same leftKey rightKey && same left right && sameFields lefts rights
  | _, _ => false

def sameOption : Option Expr → Option Expr → Bool
  | none, none => true
  | some left, some right => same left right
  | _, _ => false

def sameParameters : List (Parameter Expr) → List (Parameter Expr) → Bool
  | [], [] => true
  | ⟨left, leftDefault, leftType⟩ :: lefts, ⟨right, rightDefault, rightType⟩ :: rights =>
    left == right && sameOption leftDefault rightDefault && leftType == rightType &&
      sameParameters lefts rights
  | _, _ => false

def sameCases : List (MatchCase Expr) → List (MatchCase Expr) → Bool
  | [], [] => true
  | ⟨leftPattern, left⟩ :: lefts, ⟨rightPattern, right⟩ :: rights =>
    samePatterns leftPattern rightPattern && same left right && sameCases lefts rights
  | _, _ => false

def samePatterns : Option (MatchPattern Expr) → Option (MatchPattern Expr) → Bool
  | none, none => true
  | some ⟨left, leftMatcher, leftGuard⟩, some ⟨right, rightMatcher, rightGuard⟩ =>
    left == right && sameOption leftMatcher rightMatcher && sameOption leftGuard rightGuard
  | _, _ => false

end

end Expr

/-- Whether two declared functions agree in everything but their names. -/
def FunctionDecl.same (left right : FunctionDecl) : Bool :=
  Expr.sameParameters left.parameters right.parameters && Expr.same left.body right.body &&
    left.returns == right.returns

end Weave
