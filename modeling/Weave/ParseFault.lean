import Weave.Token

namespace Weave

/-!
# Why a source cannot be read

Each cause carries what its message needs.  Some causes are located: they carry
the position that a report points at.
-/

/-- The causes for which a source is refused. -/
inductive ParseFault where
  | unterminatedComment (position : Position)
  | unexpectedCharacter (position : Position)
  | expected (wanted found : Token.Kind) (position : Position)
  | trailingTokens (position : Position)
  | missingElse (position : Position)
  | notACase (position : Position)
  | noCases
  | unexpectedToken (kind : Token.Kind) (position : Position)
  | unclosedInterpolation
  | unreadableEscape
  | emptyScript
  | missingVersion
  | invalidVersion (line : Nat)
  | missingAssignment (line : Nat)
  | emptyVariableName (line : Nat)
  | unsupportedDirective (directive : String) (line : Nat)
  | invalidFunction (line : Nat)
  | missingFunctionBody (line : Nat)
  | invalidSignature (line : Nat)
  | emptyDefault
  | emptyParameterName
  | invalidTypeSpec (source : String)
  | missingTypeName
  | unterminatedGenerics
  | exhausted
  deriving Repr, DecidableEq

namespace ParseFault

def position? : ParseFault → Option Position
  | .unterminatedComment position => some position
  | .unexpectedCharacter position => some position
  | .expected _ _ position => some position
  | .trailingTokens position => some position
  | .missingElse position => some position
  | .notACase position => some position
  | .invalidVersion line => some ⟨line, 1⟩
  | .missingAssignment line => some ⟨line, 1⟩
  | .emptyVariableName line => some ⟨line, 1⟩
  | .unsupportedDirective _ line => some ⟨line, 1⟩
  | .invalidFunction line => some ⟨line, 1⟩
  | .missingFunctionBody line => some ⟨line, 1⟩
  | .invalidSignature line => some ⟨line, 1⟩
  | _ => none

/-- Whether another reading of the same tokens may be tried. -/
def isRecoverable : ParseFault → Bool
  | .unreadableEscape => false
  | .exhausted => false
  | _ => true

def place (position : Position) : String :=
  "line " ++ toString position.line ++ ", column " ++ toString position.column

/-- What is told about a refused script. -/
def message : ParseFault → String
  | .unterminatedComment position => "Unterminated block comment at " ++ place position
  | .unexpectedCharacter position => "Unexpected token at " ++ place position
  | .expected wanted found position =>
    "Expected " ++ wanted.name ++ " but found " ++ found.name ++ " at " ++ place position
  | .trailingTokens position => "Unexpected tokens after expression at " ++ place position
  | .missingElse position => "Expected else branch in if expression at " ++ place position
  | .notACase position => "Expected 'case' or 'else' in match expression at " ++ place position
  | .noCases => "Match expression must contain at least one case"
  | .unexpectedToken kind position => "Unexpected token " ++ kind.name ++ " at " ++ place position
  | .unclosedInterpolation => "Unclosed interpolation expression in string"
  | .unreadableEscape => "Unreadable escape in string"
  | .emptyScript => "Script body cannot be empty"
  | .missingVersion => "Missing %dw directive"
  | .invalidVersion line => "Invalid %dw directive at header line " ++ toString line
  | .missingAssignment line =>
    "Invalid var declaration (missing '=') at header line " ++ toString line
  | .emptyVariableName line => "Variable name cannot be empty at header line " ++ toString line
  | .unsupportedDirective directive line =>
    "Unsupported header directive '" ++ directive ++ "' at header line " ++ toString line
  | .invalidFunction line => "Invalid function declaration at header line " ++ toString line
  | .missingFunctionBody line => "Missing function body at header line " ++ toString line
  | .invalidSignature line => "Invalid function signature at header line " ++ toString line
  | .emptyDefault => "Default parameter expression cannot be empty"
  | .emptyParameterName => "Function parameter name cannot be empty"
  | .invalidTypeSpec source => "Invalid type specification '" ++ source ++ "'"
  | .missingTypeName => "Expected type name"
  | .unterminatedGenerics => "Unterminated generic specification"
  | .exhausted => "Nesting too deep"

end ParseFault

end Weave
