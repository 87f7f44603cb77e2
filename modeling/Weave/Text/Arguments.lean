namespace Weave.Text

/-!
# Arguments on a line

A line is cut at blanks into arguments.  Quotes keep blanks together; a backslash takes
the next character as it is, except between single quotes, and between double quotes
only a quote or another backslash.
-/

/-- Where on the line the reading is. -/
inductive ArgumentPlace where
  | between
  | inside
  | inQuotes (quote : Char)
  | escaped (quote : Option Char)
  deriving Repr, DecidableEq

def separatesArguments (character : Char) : Bool :=
  character == ' ' || character == '\t' || character == '\r' || character == '\n'

def isQuote (character : Char) : Bool :=
  character == '"' || character == '\''

/-- The place at the start of a quote, an escape or a word. -/
def openArgument (character : Char) : Option ArgumentPlace :=
  if character == '\\' then some (.escaped none)
  else if isQuote character then some (.inQuotes character)
  else none

/-- Collect arguments; the one being read is held in reverse. -/
def argumentsFrom : ArgumentPlace → List Char → List Char → Option (List (List Char))
  | .between, _, [] => some []
  | .inside, word, [] => some [word.reverse]
  | .inQuotes _, _, [] => none
  | .escaped _, _, [] => none
  | .between, _, character :: rest =>
    if separatesArguments character then argumentsFrom .between [] rest
    else
      match openArgument character with
      | some place => argumentsFrom place [] rest
      | none => argumentsFrom .inside [character] rest
  | .inside, word, character :: rest =>
    if separatesArguments character then
      (argumentsFrom .between [] rest).map (word.reverse :: ·)
    else
      match openArgument character with
      | some place => argumentsFrom place word rest
      | none => argumentsFrom .inside (character :: word) rest
  | .inQuotes quote, word, character :: rest =>
    if character == quote then argumentsFrom .inside word rest
    else if character == '\\' && quote == '"' then argumentsFrom (.escaped (some quote)) word rest
    else argumentsFrom (.inQuotes quote) (character :: word) rest
  | .escaped none, word, character :: rest => argumentsFrom .inside (character :: word) rest
  | .escaped (some quote), word, character :: rest =>
    let kept := if character == '\\' || character == quote then word else '\\' :: word
    argumentsFrom (.inQuotes quote) (character :: kept) rest

/-- The arguments on a line; none if a quote or an escape is left open. -/
def arguments? (line : String) : Option (List String) :=
  (argumentsFrom .between [] line.toList).map (·.map String.ofList)

end Weave.Text
