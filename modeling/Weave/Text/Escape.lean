import Weave.Text.Digit

namespace Weave.Text.Escape

/-!
# Backslash escapes

The characters a written literal stands for.  A literal is read byte by byte in
its UTF-8 form, so a character beyond ASCII stands for one character per byte.
Then the escapes are resolved: one-letter controls, octal and hexadecimal codes,
and a backslash before the end of a line, which disappears.  An unknown escape
keeps its backslash.  A code that is cut short or too large makes the whole literal
unreadable.  So does a character that is given by name, since no names are known
here.
-/

/-- What has been read of an escape. -/
inductive Pending where
  | nothing
  | backslash
  | octal (value count : Nat)
  | hexadecimal (value missing : Nat)
  deriving Repr, DecidableEq

def byteCharacters (text : List Char) : List Char :=
  text.flatMap fun character =>
    (String.utf8EncodeChar character).map fun byte => Char.ofNat byte.toNat

/-- The character with a code; a code that is no character has the replacement character. -/
def scalar (code : Nat) : Char :=
  if code.isValidChar then Char.ofNat code else '�'

def control? : Char → Option Char
  | 'a' => some '\x07'
  | 'b' => some '\x08'
  | 't' => some '\t'
  | 'n' => some '\n'
  | 'v' => some '\x0b'
  | 'f' => some '\x0c'
  | 'r' => some '\r'
  | '\\' => some '\\'
  | '\'' => some '\''
  | '"' => some '"'
  | _ => none

def octalDigit? (character : Char) : Option Nat :=
  let code := character.toNat
  if 48 ≤ code && code ≤ 55 then some (code - 48) else none

/-- How many hexadecimal digits follow the letter of a code escape. -/
def codeWidth? : Char → Option Nat
  | 'x' => some 2
  | 'u' => some 4
  | 'U' => some 8
  | _ => none

/-- What a character outside any escape adds, and what it leaves pending. -/
def plain (character : Char) : List Char × Pending :=
  if character = '\\' then ([], .backslash) else ([character], .nothing)

/-- One character read: what it adds and what it leaves pending, or no reading. -/
def step : Pending → Char → Option (List Char × Pending)
  | .nothing, character => some (plain character)
  | .backslash, character =>
    match control? character with
    | some control => some ([control], .nothing)
    | none =>
      match octalDigit? character with
      | some value => some ([], .octal value 1)
      | none =>
        match codeWidth? character with
        | some width => some ([], .hexadecimal 0 width)
        | none =>
          if character = '\n' then some ([], .nothing)
          else if character = 'N' then none
          else some (['\\', character], .nothing)
  | .octal value count, character =>
    match octalDigit? character with
    | some digit =>
      if count < 2 then some ([], .octal (value * 8 + digit) (count + 1))
      else some ([scalar (value * 8 + digit)], .nothing)
    | none =>
      let (added, pending) := plain character
      some (scalar value :: added, pending)
  | .hexadecimal value missing, character =>
    match hexDigit? character with
    | none => none
    | some digit =>
      let code := value * 16 + digit
      if 1 < missing then some ([], .hexadecimal code (missing - 1))
      else if code ≤ 0x10FFFF then some ([scalar code], .nothing)
      else none

def finish : Pending → Option (List Char)
  | .nothing => some []
  | .octal value _ => some [scalar value]
  | .backslash | .hexadecimal .. => none

/-- Resolve the escapes of a text of one-byte characters. -/
def resolve : Pending → List Char → Option (List Char)
  | pending, [] => finish pending
  | pending, character :: rest =>
    match step pending character with
    | none => none
    | some (added, next) => (resolve next rest).map (added ++ ·)

/-- The characters a written text stands for, if all its escapes can be read. -/
def decode (text : List Char) : Option (List Char) :=
  resolve .nothing (byteCharacters text)

/-- The text between the first and the last character, which are the quotes. -/
def inner (quoted : List Char) : List Char :=
  quoted.tail.dropLast

def unquote (quoted : String) : Option String :=
  (decode (inner quoted.toList)).map String.ofList

/-- A text between double quotes, its quotes and backslashes escaped. -/
def quote (text : String) : String :=
  let escaped := text.toList.flatMap fun character =>
    if character = '\\' || character = '"' then ['\\', character] else [character]
  String.ofList ('"' :: escaped ++ ['"'])

end Weave.Text.Escape
