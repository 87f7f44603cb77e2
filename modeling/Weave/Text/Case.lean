import Weave.Text.Runs
import Weave.Text.CaseTable

namespace Weave.Text

/-!
# Upper, lower and title case

Full case mapping: a letter may become several characters, and a capital sigma
becomes the final form at the end of a word.
-/

def CaseRuns.inverse (runs : CaseRuns) : CaseRuns :=
  runs.map fun (first, count, distance) => ((first + distance).toNat, count, -distance)

def CaseRuns.distance? (runs : CaseRuns) (code : Nat) : Option Int :=
  (runs.find? fun (first, count, _) => first ≤ code && code < first + count).map (·.2.2)

def isPairCapital? (code : Nat) : Option Bool :=
  (pairRuns.find? fun (first, count) => first ≤ code && code < first + 2 * count).map
    fun (first, _) => (code - first) % 2 == 0

/-- Look a code up among the listed sequences and then among the runs. -/
def mapCase (sequences : List (Nat × List Nat)) (distance? : Nat → Option Int) (character : Char) :
    List Char :=
  match sequences.lookup character.toNat with
  | some codes => codes.map Char.ofNat
  | none =>
    match distance? character.toNat with
    | some distance => [Char.ofNat (character.toNat + distance).toNat]
    | none => [character]

def upperDistance? (code : Nat) : Option Int :=
  match isPairCapital? code with
  | some isCapital => if isCapital then none else some (-1)
  | none => (shiftRuns ++ upperOnlyRuns).distance? code

def lowerDistance? (code : Nat) : Option Int :=
  match isPairCapital? code with
  | some isCapital => if isCapital then some 1 else none
  | none => (shiftRuns.inverse ++ lowerOnlyRuns).distance? code

def upperChar (character : Char) : List Char :=
  if character.toNat < 128 then [character.toUpper]
  else mapCase upperSequences upperDistance? character

def lowerChar (character : Char) : List Char :=
  if character.toNat < 128 then [character.toLower]
  else mapCase lowerSequences lowerDistance? character

def titleChar (character : Char) : List Char :=
  match titleSequences.lookup character.toNat with
  | some codes => codes.map Char.ofNat
  | none =>
    match titleRuns.distance? character.toNat with
    | some distance => [Char.ofNat (character.toNat + distance).toNat]
    | none => upperChar character

def isCased (character : Char) : Bool :=
  inRuns casedRuns character.toNat

/-- A character that does not separate a sigma from its word. -/
def isSkipped (character : Char) : Bool :=
  inRuns skippedRuns character.toNat

/-- Whether the nearest character that is not skipped has a case. -/
def meetsCased (text : List Char) : Bool :=
  match text.dropWhile isSkipped with
  | [] => false
  | character :: _ => isCased character

/-- Lower case from left to right; the characters already passed are held in reverse. -/
def lowerFrom : List Char → List Char → List Char
  | _, [] => []
  | passed, character :: rest =>
    let mapped :=
      if character == 'Σ' then
        if meetsCased passed && !meetsCased rest then ['ς'] else ['σ']
      else lowerChar character
    mapped ++ lowerFrom (character :: passed) rest

/-- A text in upper case. -/
def upper (text : String) : String :=
  String.ofList (text.toList.flatMap upperChar)

/-- A text in lower case. -/
def lower (text : String) : String :=
  String.ofList (lowerFrom [] text.toList)

/-- A text with its first character in title case and the others in lower case. -/
def capitalized (text : String) : String :=
  match text.toList with
  | [] => ""
  | character :: rest => String.ofList (titleChar character ++ lowerFrom [character] rest)

end Weave.Text
