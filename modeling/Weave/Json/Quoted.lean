import Weave.Text.Digit

namespace Weave.Json

/-!
# JSON strings

A text between double quotes.  Quotes, backslashes and controls are escaped, and
on request everything beyond ASCII, a character outside the basic plane as two
codes.
-/

def codeEscape (code : Nat) : List Char :=
  ['\\', 'u'] ++ Text.hex 4 code

def codeEscapes (character : Char) : List Char :=
  let code := character.toNat
  if code < 0x10000 then codeEscape code
  else
    let rest := code - 0x10000
    codeEscape (0xD800 + rest / 0x400) ++ codeEscape (0xDC00 + rest % 0x400)

def shortEscape? : Char → Option (List Char)
  | '"' => some ['\\', '"']
  | '\\' => some ['\\', '\\']
  | '\n' => some ['\\', 'n']
  | '\r' => some ['\\', 'r']
  | '\t' => some ['\\', 't']
  | '\x08' => some ['\\', 'b']
  | '\x0c' => some ['\\', 'f']
  | _ => none

def escaped (asciiOnly : Bool) (character : Char) : List Char :=
  match shortEscape? character with
  | some escape => escape
  | none =>
    let code := character.toNat
    if code < 32 || (asciiOnly && code > 126) then codeEscapes character else [character]

def quote (asciiOnly : Bool) (text : String) : String :=
  String.ofList ('"' :: text.toList.flatMap (escaped asciiOnly) ++ ['"'])

end Weave.Json
