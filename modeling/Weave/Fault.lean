import Weave.ParseFault

namespace Weave

/-!
# Why an evaluation fails

A fault is one of these things: a source that cannot be read, an evaluation that is
refused with a report, a value of the wrong kind, a defect that an operation on values
meets (an overflow, operands that cannot be combined), or a question that the language
leaves open.  `Fault.message` words all of them; a defect has no wording of its own, so
its words are a parameter.
-/

/-- Troubles that operations on values run into. -/
inductive Defect where
  /-- Operands of kinds that cannot be combined, or a wrong number of arguments. -/
  | operands
  | domain
  | overflow
  | zeroDivision
  | missingPart
  | undecodable
  | badPattern
  | unknownEncoding
  | badJson
  | badXml
  | badTable
  deriving Repr, DecidableEq

/-- What is wrong, in words. -/
def Defect.describe : Defect → String
  | .operands => "operands cannot be combined"
  | .domain => "value outside the domain"
  | .overflow => "result too large"
  | .zeroDivision => "division by zero"
  | .missingPart => "value has no such part"
  | .undecodable => "bytes are no text"
  | .badPattern => "malformed pattern"
  | .unknownEncoding => "unknown encoding"
  | .badJson => "malformed JSON"
  | .badXml => "malformed XML"
  | .badTable => "malformed table"

/-- What a function is called in messages about its arguments. -/
inductive Callee where
  | lambda
  | function
  deriving Repr, DecidableEq

/-- Values of the wrong kind. -/
inductive Mismatch where
  | notCallable (expression : String)
  | tooManyArguments (callee : Callee)
  | missingArgument (name : String) (callee : Callee)
  | noAttribute (selector kind : String)
  | uncoercibleText (text target : String)
  | uncoercible (kind target : String)
  | expects (function wanted : String)
  deriving Repr, DecidableEq

def Mismatch.message : Mismatch → String
  | .notCallable expression => "Expression " ++ expression ++ " is not callable"
  | .tooManyArguments .lambda => "Too many arguments supplied to lambda expression"
  | .tooManyArguments .function => "Too many arguments supplied to function"
  | .missingArgument name .lambda => "Missing argument '" ++ name ++ "' for lambda"
  | .missingArgument name .function => "Missing argument '" ++ name ++ "' for function"
  | .noAttribute selector kind => "Cannot access attribute '" ++ selector ++ "' on " ++ kind
  | .uncoercibleText text target => "Cannot coerce string '" ++ text ++ "' to " ++ target
  | .uncoercible kind target => "Cannot coerce " ++ kind ++ " to " ++ target
  | .expects function wanted => function ++ " expects " ++ wanted

/-- Why a format cannot be read or written. -/
inductive FormatCause where
  | notText
  | badIndent
  | notRows
  | noColumns
  | invalidXml
  | defect (defect : Defect)
  deriving Repr, DecidableEq

def FormatCause.message (describe : Defect → String) : FormatCause → String
  | .notText => "Expected textual input for this format"
  | .badIndent => "JSON indent must be an integer"
  | .notRows => "CSV writer expects a list or dict value"
  | .noColumns => "CSV writer requires at least one column when writing dictionaries"
  | .invalidXml => "Invalid XML input: " ++ describe .badXml
  | .defect trouble => describe trouble

/-- What keeps a format from being read or written. -/
inductive FormatFault where
  | unsupportedInput (name : String)
  | unsupportedOutput (name : String)
  | reading (format : String) (cause : FormatCause)
  | writing (format : String) (cause : FormatCause)
  deriving Repr, DecidableEq

def FormatFault.message (describe : Defect → String) : FormatFault → String
  | .unsupportedInput name => "Unsupported input format '" ++ name ++ "'"
  | .unsupportedOutput name => "Unsupported output format '" ++ name ++ "'"
  | .reading format cause => "Failed to parse input as " ++ format ++ ": " ++ cause.message describe
  | .writing format cause =>
    "Failed to render output as " ++ format ++ ": " ++ cause.message describe

/-- An operand of a sum as a message shows it: its type and its text. -/
structure Operand where
  type : String
  preview : String
  deriving Repr, DecidableEq

/-- What stops evaluation at a place. -/
inductive EvalFault where
  | unresolved (name : String) (line column : Nat)
  | noPlaceholder (level line column : Nat)
  | badSum (left right : Operand) (place : Option Position)
  | badDirective (directive : String)
  | missingWriter
  | unsupportedOutput (name : String)
  | format (fault : FormatFault)
  deriving Repr, DecidableEq

namespace EvalFault

def sums : List String :=
  ["(Array, Any)", "(Date, Period)", "(DateTime, Period)", "(LocalDateTime, Period)",
    "(LocalTime, Period)", "(Number, Number)", "(Period, DateTime)", "(Period, LocalDateTime)",
    "(Period, Time)", "(Period, Date)", "(Period, LocalTime)", "(Time, Period)"]

def message (describe : Defect → String) : EvalFault → String
  | .unresolved name _ _ => "Unable to resolve reference of `" ++ name ++ "`."
  | .noPlaceholder level _ _ =>
    let sign := if level = 1 then "$" else "$$"
    "Placeholder '" ++ sign ++ "' is not defined in this context"
  | .badSum left right _ =>
    "\n".intercalate
      (["You called the function '+' with these arguments:",
        "  1: " ++ left.type ++ " (" ++ left.preview ++ ")",
        "  2: " ++ right.type ++ " (" ++ right.preview ++ ")",
        "",
        "But it expects one of these combinations:"] ++ sums.map ("  " ++ ·))
  | .badDirective directive => "Invalid output directive: " ++ directive
  | .missingWriter => "Missing writer format after 'with' in output directive"
  | .unsupportedOutput name => "Unsupported output format '" ++ name ++ "'"
  | .format fault => fault.message describe

/-- A number that counts from one; zero stands for none. -/
def counted (number : Nat) : Option Nat :=
  if number = 0 then none else some number

def line? : EvalFault → Option Nat
  | .unresolved _ line _ => some line
  | .noPlaceholder _ line _ => counted line
  | .badSum _ _ place => place.map (·.line)
  | _ => none

def column? : EvalFault → Option Nat
  | .unresolved _ _ column => some column
  | .noPlaceholder _ _ column => counted column
  | .badSum _ _ place => place.map (·.column)
  | _ => none

def length : EvalFault → Nat
  | .unresolved name _ _ => max name.length 1
  | _ => 1

end EvalFault

/-- Why an evaluation fails; a report names the script whose line it quotes. -/
inductive Fault where
  | malformed (fault : ParseFault) (script : Option String)
  | refused (fault : EvalFault) (script : Option String)
  | format (fault : FormatFault)
  | mismatch (mismatch : Mismatch)
  | emptyAverage
  | defect (defect : Defect)
  /-- What is asked for is left open: the text or a part of a function. -/
  | unspecified
  | exhausted
  deriving Repr, DecidableEq

namespace Fault

def isKindFault : Fault → Bool
  | .mismatch _ => true
  | .defect .operands => true
  | _ => false

/-- Whether the fault lies in a value that an operation is not defined for. -/
def isDomainFault : Fault → Bool
  | .emptyAverage => true
  | .defect .domain => true
  | .defect .undecodable => true
  | _ => false

end Fault

end Weave
