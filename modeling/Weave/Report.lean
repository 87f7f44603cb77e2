import Weave.Decimal.Shortest
import Weave.Fault
import Weave.Text.Blank

namespace Weave

/-!
# Reports

A message with the line of the script it is about, a mark under the place, and the
place in words.
-/

namespace Report

def shown : Option Int → String
  | some number => Decimal.writeInt number
  | none => "None"

def place (location : String) (line column : Option Int) : String :=
  "Location:\n" ++ location ++ " (line: " ++ shown line ++ ", column: " ++ shown column ++ ")"

def repeated (character : Char) (count : Nat) : String :=
  String.ofList (List.replicate count character)

/-- A message with the line it is about. -/
def write (source message : String) (line column : Option Int) (length : Int) (location : String) :
    String :=
  match line, column with
  | none, none => message
  | some number, some start =>
    let quoted := if number < 1 then none else (Text.linesOf source)[(number - 1).toNat]?
    match quoted with
    | none => message ++ "\n\n" ++ place location line column
    | some text =>
      let gutter := Decimal.writeInt number ++ "| "
      let mark :=
        repeated ' ' (gutter.length + (start - 1).toNat) ++ repeated '^' (max length 1).toNat
      message ++ "\n\n" ++ gutter ++ text ++ "\n" ++ mark ++ "\n\n" ++
        place location line column
  | _, _ => message ++ "\n\n" ++ place location line column

def mainScript : String := "main"

end Report

namespace Fault

/-- What is told about a fault. -/
def message (describe : Defect → String) : Fault → String
  | .malformed fault none => fault.message
  | .malformed fault (some script) =>
    Report.write script fault.message (fault.position?.map fun place => (place.line : Int))
      (fault.position?.map fun place => (place.column : Int)) 1 Report.mainScript
  | .refused fault none => fault.message describe
  | .refused fault (some script) =>
    Report.write script (fault.message describe) (fault.line?.map Int.ofNat)
      (fault.column?.map Int.ofNat) fault.length Report.mainScript
  | .format fault => fault.message describe
  | .mismatch reason => reason.message
  | .emptyAverage => "avg expects a non-empty array"
  | .defect trouble => describe trouble
  | .unspecified => "Functions have no text and no parts"
  | .exhausted => "Evaluation too deep"

end Fault

end Weave
