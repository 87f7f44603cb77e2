import Weave.Expr

namespace Weave

/-!
# Scripts

A script is a header with its declarations and a body.
-/

/-- A function of the header. -/
structure FunctionDecl where
  name : String
  parameters : List (Parameter Expr)
  body : Expr
  returns : Option TypeSpec

/-- A variable of the header. -/
structure VariableDecl where
  name : String
  value : Expr

/-- The declarations before the body; the output and the imports are kept as written. -/
structure Header where
  version : String
  output : Option String
  imports : List String
  bindings : List VariableDecl
  functions : List FunctionDecl

/-- A header and a body. -/
structure Script where
  header : Header
  body : Expr

/-- The header of a script that consists of its body only. -/
def Header.plain : Header where
  version := "2.0"
  output := none
  imports := []
  bindings := []
  functions := []

end Weave
