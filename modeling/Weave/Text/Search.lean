namespace Weave.Text

/-!
# Occurrences inside a text

Finding, cutting at and replacing the occurrences of one text inside another.
Occurrences are taken from the left and never overlap.
-/

/-- What stands behind a beginning. -/
def after? : List Char → List Char → Option (List Char)
  | [], text => some text
  | _ :: _, [] => none
  | expected :: beginning, character :: text =>
    if expected = character then after? beginning text else none

def startsWith (text beginning : List Char) : Bool :=
  (after? beginning text).isSome

/-- Whether a text ends so. -/
def endsWith (text ending : List Char) : Bool :=
  startsWith text.reverse ending.reverse

/-- The text before and after the first occurrence of a needle. -/
def cutAt? (needle : List Char) : List Char → Option (List Char × List Char)
  | [] => if needle.isEmpty then some ([], []) else none
  | character :: rest =>
    match after? needle (character :: rest) with
    | some remainder => some ([], remainder)
    | none => (cutAt? needle rest).map fun (before, remainder) => (character :: before, remainder)

/-- Whether a text is found inside. -/
def contains (text needle : List Char) : Bool :=
  (cutAt? needle text).isSome

def indexOf? (needle text : List Char) : Option Nat :=
  (cutAt? needle text).map (·.1.length)

def lastIndexOf? (needle text : List Char) : Option Nat :=
  (indexOf? needle.reverse text.reverse).map fun offset =>
    text.length - needle.length - offset

/-- The segments between occurrences; the fuel bounds the number of cuts. -/
def splitWithin (needle : List Char) : Nat → List Char → List (List Char)
  | 0, text => [text]
  | cuts + 1, text =>
    match cutAt? needle text with
    | none => [text]
    | some (before, remainder) => before :: splitWithin needle cuts remainder

/-- The segments of a text between the occurrences of a needle that is not empty. -/
def splitOn (needle text : List Char) : List (List Char) :=
  splitWithin needle (text.length + 1) text

/-- The segments of a string between the occurrences of a needle that is not empty. -/
def splitString (needle text : String) : List String :=
  (splitOn needle.toList text.toList).map String.ofList

def joinWith (separator : List Char) : List (List Char) → List Char
  | [] => []
  | [segment] => segment
  | segment :: rest => segment ++ separator ++ joinWith separator rest

/--
Every occurrence of a needle replaced.  The empty needle occurs before every
character and at the end.
-/
def replace (needle replacement text : List Char) : List Char :=
  if needle.isEmpty then
    replacement ++ text.flatMap fun character => character :: replacement
  else
    joinWith replacement (splitOn needle text)

def replaced (needle replacement text : String) : String :=
  String.ofList (replace needle.toList replacement.toList text.toList)

end Weave.Text
