namespace Weave.Text

/-!
# Cutting outside brackets

A text is cut at a character wherever no bracket is open.  A closing bracket
without an opening one is ignored.
-/

def bracketDepth (depth : Nat) (character : Char) : Nat :=
  if character = '(' || character = '{' || character = '[' then depth + 1
  else if character = ')' || character = '}' || character = ']' then depth - 1
  else depth

def mayCut : Option Nat → Bool
  | none => true
  | some left => 0 < left

/--
Cut from a depth with a number of cuts left, or with no limit; the characters of
the segment being read are held in reverse.
-/
def splitTopLevelFrom (delimiter : Char) :
    Nat → Option Nat → List Char → List Char → List (List Char)
  | _, _, segment, [] => [segment.reverse]
  | depth, cuts, segment, character :: rest =>
    let deeper := bracketDepth depth character
    if character = delimiter && deeper = 0 && mayCut cuts then
      segment.reverse :: splitTopLevelFrom delimiter deeper (cuts.map (· - 1)) [] rest
    else
      splitTopLevelFrom delimiter deeper cuts (character :: segment) rest

/-- The segments between the delimiters outside brackets, with at most the given number of cuts. -/
def splitTopLevel (delimiter : Char) (cuts : Option Nat) (text : List Char) : List (List Char) :=
  splitTopLevelFrom delimiter 0 cuts [] text

end Weave.Text
