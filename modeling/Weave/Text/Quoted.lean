import Weave.Text.Digit
import Weave.Text.Printable

namespace Weave.Text.Quoted

/-!
# Quoted texts

A text between quotes as it is shown inside lists, objects and messages.  Single
quotes are used unless the text holds a single quote and no double quote.  Quotes,
backslashes and characters that cannot be shown are escaped.
-/

def mark (text : List Char) : Char :=
  if text.contains '\'' && !text.contains '"' then '"' else '\''

def escape? (quote character : Char) : Option (List Char) :=
  if character = quote || character = '\\' then some ['\\', character]
  else if character = '\n' then some ['\\', 'n']
  else if character = '\r' then some ['\\', 'r']
  else if character = '\t' then some ['\\', 't']
  else none

def shown (quote character : Char) : List Char :=
  match escape? quote character with
  | some escaped => escaped
  | none =>
    if isPrintable character then [character]
    else if character.toNat < 0x100 then ['\\', 'x'] ++ hex 2 character.toNat
    else if character.toNat < 0x10000 then ['\\', 'u'] ++ hex 4 character.toNat
    else ['\\', 'U'] ++ hex 8 character.toNat

def ofText (text : String) : String :=
  let characters := text.toList
  let quote := mark characters
  String.ofList (quote :: characters.flatMap (shown quote) ++ [quote])

/-- How a byte is shown: as its ASCII character where that can be shown. -/
def shownByte (quote : Char) (byte : UInt8) : List Char :=
  let character := Char.ofNat byte.toNat
  match escape? quote character with
  | some escaped => escaped
  | none =>
    if 32 ≤ byte.toNat && byte.toNat < 127 then [character]
    else ['\\', 'x'] ++ hex 2 byte.toNat

/-- Bytes between quotes, after the letter that marks them. -/
def ofBytes (bytes : List UInt8) : String :=
  let quote := mark (bytes.map fun byte => Char.ofNat byte.toNat)
  String.ofList ('b' :: quote :: bytes.flatMap (shownByte quote) ++ [quote])

end Weave.Text.Quoted
