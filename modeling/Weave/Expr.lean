import Weave.Position
import Weave.TypeSpec

namespace Weave

/-!
# Expressions

The tree of an expression.  Operators and infix words are calls of functions with
reserved names, so that evaluation knows one kind of call.
-/

/-- What a property access asks for. -/
inductive Selector where
  /-- The value under a name. -/
  | key (name : String)
  | every (name : String)
  | attribute (name : String)
  deriving Repr, DecidableEq

namespace Selector

def text : Selector → String
  | .key name => name
  | .every name => "*" ++ name
  | .attribute name => "@" ++ name

def ofText (text : String) : Selector :=
  match text.toList with
  | '*' :: rest => .every (String.ofList rest)
  | '@' :: rest => .attribute (String.ofList rest)
  | _ => .key text

end Selector

/-- A parameter with an optional default and an optional type. -/
structure Parameter (ε : Type) where
  name : String
  fallback : Option ε
  type? : Option TypeSpec

/-- What a case asks of the matched value. -/
structure MatchPattern (ε : Type) where
  binding : Option String
  matcher : Option ε
  guard : Option ε

/-- A case of a match; the case without a pattern always applies. -/
structure MatchCase (ε : Type) where
  pattern : Option (MatchPattern ε)
  result : ε

/-- Expressions. -/
inductive Expr where
  | object (fields : List (Expr × Expr))
  | list (elements : List Expr)
  | text (value : String)
  | template (parts : List Expr)
  | number (value : Float)
  | boolean (value : Bool)
  | null
  | name (name : String) (position : Position)
  | placeholder (level : Nat) (position : Position)
  | property (base : Expr) (selector : Selector) (nullSafe : Bool)
  | index (base index : Expr)
  | call (function : Expr) (arguments : List Expr)
  | orElse (left right : Expr)
  | conditional (condition whenTrue whenFalse : Expr)
  | lambda (parameters : List (Parameter Expr)) (body : Expr)
  | matching (subject : Expr) (cases : List (MatchCase Expr))
  | coercion (value : Expr) (target : TypeSpec) (options : Option Expr)

namespace Expr

instance : Inhabited Expr :=
  ⟨.null⟩

/-- A reference to a function that stands nowhere in the source. -/
def builtin (name : String) : Expr :=
  .name name .nowhere

/-- An operator applied to two operands. -/
def binary (operator : String) (left right : Expr) : Expr :=
  .call (builtin operator) [left, right]

end Expr

end Weave
