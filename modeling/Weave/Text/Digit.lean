namespace Weave.Text

/-!
# Decimal digits

Every script writes its ten decimal digits in order, so a digit is named by the
code of its zero.  `digit?` reads a digit of any script.
-/

/-- The codes of the zeros of the scripts beyond ASCII. -/
def foreignZeros : List Nat :=
  [
    0x660, 0x6f0, 0x7c0, 0x966, 0x9e6, 0xa66, 0xae6, 0xb66, 0xbe6,
    0xc66, 0xce6, 0xd66, 0xde6, 0xe50, 0xed0, 0xf20, 0x1040, 0x1090,
    0x17e0, 0x1810, 0x1946, 0x19d0, 0x1a80, 0x1a90, 0x1b50, 0x1bb0, 0x1c40,
    0x1c50, 0xa620, 0xa8d0, 0xa900, 0xa9d0, 0xa9f0, 0xaa50, 0xabf0, 0xff10,
    0x104a0, 0x10d30, 0x11066, 0x110f0, 0x11136, 0x111d0, 0x112f0, 0x11450, 0x114d0,
    0x11650, 0x116c0, 0x11730, 0x118e0, 0x11950, 0x11c50, 0x11d50, 0x11da0, 0x16a60,
    0x16ac0, 0x16b50, 0x1d7ce, 0x1d7d8, 0x1d7e2, 0x1d7ec, 0x1d7f6, 0x1e140, 0x1e2f0,
    0x1e950, 0x1fbf0]

def digit? (character : Char) : Option Nat :=
  let code := character.toNat
  if code < 128 then
    if 48 ≤ code && code ≤ 57 then some (code - 48) else none
  else
    (foreignZeros.find? fun first => first ≤ code && code < first + 10).map (code - ·)

def isDigit (character : Char) : Bool :=
  (digit? character).isSome

def hexDigit? (character : Char) : Option Nat :=
  let code := character.toNat
  if 48 ≤ code && code ≤ 57 then some (code - 48)
  else if 97 ≤ code && code ≤ 102 then some (code - 87)
  else if 65 ≤ code && code ≤ 70 then some (code - 55)
  else none

/-- The lower-case hexadecimal digit of a number below sixteen. -/
def hexDigit (value : Nat) : Char :=
  if value < 10 then Char.ofNat (48 + value) else Char.ofNat (87 + value)

/-- The last digits of a number in hexadecimal, exactly as many as the width. -/
def hex (width value : Nat) : List Char :=
  match width with
  | 0 => []
  | width + 1 => hex width (value / 16) ++ [hexDigit (value % 16)]

def decimal (value : Nat) : List Char :=
  Nat.toDigits 10 value

end Weave.Text
