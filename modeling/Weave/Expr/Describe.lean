import Weave.Decimal.Shortest
import Weave.Expr
import Weave.Text.Quoted

namespace Weave

/-!
# Expressions spelled out

The tree of an expression as text: the name of every node and its parts by name.  The
message about a call of something that is no function shows it.
-/

namespace Describe

def node (name : String) (parts : List (String × String)) : String :=
  name ++ "(" ++ ", ".intercalate (parts.map fun (part, text) => part ++ "=" ++ text) ++ ")"

def listing (texts : List String) : String :=
  "[" ++ ", ".intercalate texts ++ "]"

def truth (value : Bool) : String :=
  if value then "True" else "False"

def optional : Option String → String
  | some text => text
  | none => "None"

def place (position : Position) : List (String × String) :=
  [("line", toString position.line), ("column", toString position.column)]

end Describe

mutual

def TypeSpec.describe : TypeSpec → String
  | .mk name generics =>
    Describe.node "TypeSpec" [("name", Text.Quoted.ofText name),
      ("generics", Describe.listing (TypeSpec.describeAll generics))]

def TypeSpec.describeAll : List TypeSpec → List String
  | [] => []
  | spec :: rest => spec.describe :: TypeSpec.describeAll rest

end

namespace Expr

open Describe

mutual

def describe : Expr → String
  | .object fields => node "ObjectLiteral" [("fields", listing (describeFields fields))]
  | .list elements => node "ListLiteral" [("elements", listing (describeAll elements))]
  | .text value => node "StringLiteral" [("value", Text.Quoted.ofText value)]
  | .template parts => node "InterpolatedString" [("parts", listing (describeAll parts))]
  | .number value => node "NumberLiteral" [("value", Decimal.write value)]
  | .boolean value => node "BooleanLiteral" [("value", truth value)]
  | .null => node "NullLiteral" []
  | .name word position => node "Identifier" (("name", Text.Quoted.ofText word) :: place position)
  | .placeholder level position =>
    node "Placeholder" (("level", toString level) :: place position)
  | .property base selector nullSafe =>
    node "PropertyAccess" [("value", describe base),
      ("attribute", Text.Quoted.ofText selector.text), ("null_safe", truth nullSafe)]
  | .index base place => node "IndexAccess" [("value", describe base), ("index", describe place)]
  | .call function arguments =>
    node "FunctionCall" [("function", describe function),
      ("arguments", listing (describeAll arguments))]
  | .orElse left right => node "DefaultOp" [("left", describe left), ("right", describe right)]
  | .conditional condition whenTrue whenFalse =>
    node "IfExpression" [("condition", describe condition), ("when_true", describe whenTrue),
      ("when_false", describe whenFalse)]
  | .lambda parameters body =>
    node "LambdaExpression" [("parameters", listing (describeParameters parameters)),
      ("body", describe body)]
  | .matching subject cases =>
    node "MatchExpression" [("value", describe subject), ("cases", listing (describeCases cases))]
  | .coercion value target options =>
    node "TypeCoercion" [("expression", describe value), ("target", target.describe),
      ("options", describeOption options)]

def describeAll : List Expr → List String
  | [] => []
  | expr :: rest => describe expr :: describeAll rest

def describeFields : List (Expr × Expr) → List String
  | [] => []
  | (key, value) :: rest =>
    ("(" ++ describe key ++ ", " ++ describe value ++ ")") :: describeFields rest

def describeOption : Option Expr → String
  | some expr => describe expr
  | none => "None"

def describeParameters : List (Parameter Expr) → List String
  | [] => []
  | ⟨word, fallback, type?⟩ :: rest =>
    node "Parameter" [("name", Text.Quoted.ofText word), ("default", describeOption fallback),
      ("type_annotation", optional (type?.map TypeSpec.describe))] ::
        describeParameters rest

def describeCases : List (MatchCase Expr) → List String
  | [] => []
  | ⟨none, result⟩ :: rest =>
    node "MatchCase" [("pattern", "None"), ("expression", describe result)] :: describeCases rest
  | ⟨some ⟨binding, matcher, guard⟩, result⟩ :: rest =>
    node "MatchCase"
      [("pattern", node "MatchPattern" [("binding", optional (binding.map Text.Quoted.ofText)),
        ("matcher", describeOption matcher), ("guard", describeOption guard)]),
        ("expression", describe result)] :: describeCases rest

end

end Expr

end Weave
