import Weave.Pattern.Match
import Weave.Pattern.Parser
import Weave.Text.Search
import Weave.Value.Convert

namespace Weave.Core

/-!
# Texts

Functions on the texts of values: tests, letter case, positions, cuts and patterns.  A
text between slashes is a pattern.
-/

/-- Apply a function to the text of a value; null is kept. -/
def onText (function : String → Value) : Value → Except Fault Value
  | .null => .ok .null
  | value => do return function (← value.toText)

/-- The text of a value; null has the empty one. -/
def textOrEmpty : Value → Except Fault String
  | .null => .ok ""
  | value => value.toText

/-- Compare the text of a value with the text of another; null has none. -/
def compareTexts (test : List Char → List Char → Bool) : Value → Value → Except Fault Value
  | .null, _ => .ok (.bool false)
  | text, part => do return .bool (test (← text.toText).toList (← textOrEmpty part).toList)

/-- The texts of a list with a separator between them. -/
def joinBy : Value → Value → Except Fault Value
  | .null, _ => .ok .null
  | .list _ items, separator | .tuple items, separator =>
    do return .text ((← textOrEmpty separator).intercalate (← items.mapM textOrEmpty))
  | _, _ => .error (.mismatch (.expects "joinBy" "an array"))

/-- Whether the text of a value holds blanks only; null counts as blank. -/
def isBlank : Value → Except Fault Value
  | .null => .ok (.bool true)
  | value => do return .bool (Text.trim (← value.toText).toList).isEmpty

/-- What stands between two slashes. -/
def slashed? (text : List Char) : Option (List Char) :=
  if Text.startsWith text ['/'] && Text.endsWith text ['/'] then some (text.drop 1).dropLast
  else none

/-- The pattern that a source is read as. -/
def patternOf (source : List Char) : Except Fault Pattern :=
  match Pattern.parse source with
  | .ok pattern => .ok pattern
  | .error trouble => .error (.defect trouble)

/-- The pattern that the text of a value writes, between slashes or not. -/
def patternIn (value : Value) : Except Fault Pattern := do
  let text := (← value.toText).toList
  patternOf ((slashed? text).getD text)

/-- A text, or null for a group that took no part. -/
def textOrNull : Option (List Char) → Value
  | some text => .text (String.ofList text)
  | none => .null

/-- The match at the start of a text, followed by its groups. -/
def groups : Value → Value → Except Fault Value
  | .null, _ => .ok (.array [])
  | text, written => do
    let pattern ← patternIn written
    match pattern.matchStart? (← text.toText).toList with
    | none => return .array []
    | some found => return .array (textOrNull (some found.text) :: found.groups.map textOrNull)

/-- Whether a pattern matches a whole text. -/
def fullMatch : Value → Value → Except Fault Value
  | .null, _ => .ok (.bool false)
  | text, written => do
    let pattern ← patternIn written
    return .bool (pattern.matchesAll (← text.toText).toList)

/-- The offsets of the occurrences of a needle; the empty one occurs everywhere. -/
def occurrencesFrom (needle : List Char) : Nat → Nat → List Char → List Nat
  | 0, _, _ => []
  | fuel + 1, offset, text =>
    match Text.cutAt? needle text with
    | none => []
    | some (before, behind) =>
      let place := offset + before.length
      if needle.isEmpty then
        match text with
        | [] => [place]
        | _ :: rest => place :: occurrencesFrom needle fuel (place + 1) rest
      else place :: occurrencesFrom needle fuel (place + needle.length) behind

/-- The places at which a text occurs in another. -/
def occurrences (needle text : List Char) : List Nat :=
  occurrencesFrom needle (text.length + 1) 0 text

/-- Numbers as a list of integers. -/
def counts (numbers : List Nat) : Value :=
  .array (numbers.map fun (number : Nat) => .int number)

/-- The places of the items that are equal to a value. -/
def places (items : List Value) (wanted : Value) : List Nat :=
  (items.zipIdx.filter fun (item, _) => item == wanted).map (·.2)

/-- The places of a text, of the matches of a pattern or of an item. -/
def find : Value → Value → Except Fault Value
  | .null, _ => .ok (.array [])
  | .text _, .null => .ok (.array [])
  | .text text, .text written =>
    match slashed? written.toList with
    | some source => do
      return counts (((← patternOf source).all text.toList).map (·.start))
    | none => .ok (counts (occurrences written.toList text.toList))
  | .text text, needle => do return counts (occurrences (← needle.toText).toList text.toList)
  | value, wanted => do return counts (places (← value.items) wanted)

/-- A place, or -1 if there is none. -/
def placeOrNone : Option Nat → Value
  | some place => .int place
  | none => .int (-1)

/-- The place of a value in another, of a text in a text or of an item among others, or -1. -/
def placeBy (inText : List Char → List Char → Option Nat) (among : List Nat → Option Nat) :
    Value → Value → Except Fault Value
  | .null, _ => .ok (.int (-1))
  | .text _, .null => .ok (.int (-1))
  | .text text, needle => do
    return placeOrNone (inText (← needle.toText).toList text.toList)
  | value, wanted => do return placeOrNone (among (places (← value.items) wanted))

/-- The first place of a value in another. -/
def indexOf : Value → Value → Except Fault Value :=
  placeBy Text.indexOf? List.head?

/-- The last place of a value in another. -/
def lastIndexOf : Value → Value → Except Fault Value :=
  placeBy Text.lastIndexOf? List.getLast?

/-- The parts of a text between separators, or its characters. -/
def splitAtText (text separator : String) : Value :=
  if separator.isEmpty then .array (Value.characters text)
  else .array ((Text.splitString separator text).map Value.text)

/-- Cut a text at a separator or at the matches of a pattern. -/
def splitBy : Value → Value → Except Fault Value
  | .null, _ => .ok .null
  | value, separator => do
    let text ← value.toText
    match separator with
    | .null => return .array [.text text]
    | .text written =>
      match slashed? written.toList with
      | some source => return .array (((← patternOf source).split text.toList).map textOrNull)
      | none => return splitAtText text written
    | other => return splitAtText text (← other.toText)

/-- Whether a text, an object or a sequence holds something. -/
def contains : Value → Value → Except Fault Value
  | .text _, .null => .ok (.bool false)
  | .text text, part => do
    return .bool (Text.contains text.toList (← part.toText).toList)
  | .object _ entries, wanted =>
    if entries.any fun (_, value) => value == wanted then .ok (.bool true)
    else do
      wanted.requireMember
      return .bool (entries.any fun (key, _) => Key.ofValue? wanted == some key)
  | value, wanted => do return .bool ((← value.items).any (· == wanted))

/-- How many items, entries, bytes or characters a value has. -/
def sizeOf : Value → Except Fault Nat
  | .null => .ok 0
  | .list _ items | .tuple items => .ok items.length
  | .object _ entries => .ok entries.length
  | .bytes data | .buffer data => .ok data.length
  | value => do return (← value.toText).length

/-- Whether a value holds nothing. -/
def isEmpty : Value → Bool
  | .null => true
  | .list _ items | .tuple items => items.isEmpty
  | .object _ entries => entries.isEmpty
  | .text value => value.isEmpty
  | _ => false

end Weave.Core
