import Weave.Text.Case

namespace Weave.Text

/-!
# Encodings

Bytes read as text.  An encoding is named in many ways: letter case and the signs
between the parts of a name do not matter.
-/

/-- The order of the bytes of a number. -/
inductive ByteOrder where
  | littleFirst
  | bigFirst
  deriving Repr, DecidableEq

/-- Encodings of texts; without an order, a mark at the start tells it. -/
inductive Encoding where
  | ascii
  | latin1
  | windows
  | utf8
  | utf8Marked
  | utf16 (order : Option ByteOrder)
  | utf32 (order : Option ByteOrder)
  deriving Repr, DecidableEq

namespace Encoding

def names : List (Encoding × List String) :=
  [(.utf8, ["utf_8", "cp65001", "u8", "utf", "utf8", "utf8_ucs2", "utf8_ucs4"]),
    (.utf8Marked, ["utf_8_sig"]),
    (.ascii, ["ascii", "646", "ansi_x3.4_1968", "ansi_x3.4_1986", "ansi_x3_4_1968", "cp367",
      "csascii", "ibm367", "iso646_us", "iso_646.irv_1991", "iso_ir_6", "us", "us_ascii"]),
    (.latin1, ["latin_1", "8859", "cp819", "csisolatin1", "ibm819", "iso8859", "iso8859_1",
      "iso_8859_1", "iso_8859_1_1987", "iso_ir_100", "l1", "latin", "latin1"]),
    (.windows, ["cp1252", "1252", "windows_1252"]),
    (.utf16 none, ["utf_16", "u16", "utf16"]),
    (.utf16 (some .littleFirst), ["utf_16_le", "unicodelittleunmarked", "utf_16le"]),
    (.utf16 (some .bigFirst), ["utf_16_be", "unicodebigunmarked", "utf_16be"]),
    (.utf32 none, ["utf_32", "u32", "utf32"]),
    (.utf32 (some .littleFirst), ["utf_32_le", "utf_32le"]),
    (.utf32 (some .bigFirst), ["utf_32_be", "utf_32be"])]

/-- Collect the parts of a name; `gap` tells whether a sign has just been passed. -/
def joinParts : Bool → List Char → List Char
  | _, [] => []
  | gap, character :: rest =>
    if character.isAlphanum || character == '.' then
      (if gap then ['_', character] else [character]) ++ joinParts false rest
    else joinParts true rest

/-- A name in small letters with one underscore between its parts. -/
def plainName (name : String) : String :=
  let parts := name.toList.dropWhile fun character => !(character.isAlphanum || character == '.')
  lower (String.ofList (joinParts false parts))

def named? (name : String) : Option Encoding :=
  (names.find? fun (_, known) => known.contains (plainName name)).map (·.1)

def byteText (data : List UInt8) : List Char :=
  data.map fun byte => Char.ofNat byte.toNat

/-- The characters of the bytes from 128 to 159 in the Windows encoding; zero for none. -/
def windowsCodes : List Nat :=
  [0x20AC, 0, 0x201A, 0x0192, 0x201E, 0x2026, 0x2020, 0x2021, 0x02C6, 0x2030, 0x0160, 0x2039,
    0x0152, 0, 0x017D, 0, 0, 0x2018, 0x2019, 0x201C, 0x201D, 0x2022, 0x2013, 0x2014, 0x02DC,
    0x2122, 0x0161, 0x203A, 0x0153, 0, 0x017E, 0x0178]

def windowsCharacter? (byte : UInt8) : Option Char :=
  if byte < 128 || byte ≥ 160 then some (Char.ofNat byte.toNat)
  else
    match windowsCodes[byte.toNat - 128]? with
    | none | some 0 => none
    | some code => some (Char.ofNat code)

def numberOf (order : ByteOrder) (data : List UInt8) : Nat :=
  let ordered := match order with
    | .littleFirst => data.reverse
    | .bigFirst => data
  ordered.foldl (fun value byte => value * 256 + byte.toNat) 0

/-- Bytes in numbers of a width; none if some are left. -/
def numbers? (width : Nat) (order : ByteOrder) : Nat → List UInt8 → Option (List Nat)
  | _, [] => some []
  | 0, _ => none
  | fuel + 1, data =>
    if data.length < width then none
    else
      (numbers? width order fuel (data.drop width)).map (numberOf order (data.take width) :: ·)

/-- The characters of numbers of two bytes; the two halves of a large number make one. -/
def fromPairs? : List Nat → Option (List Char)
  | [] => some []
  | [code] => if 0xD800 ≤ code && code < 0xE000 then none else some [Char.ofNat code]
  | code :: next :: rest =>
    if 0xD800 ≤ code && code < 0xDC00 then
      if 0xDC00 ≤ next && next < 0xE000 then
        let full := 0x10000 + (code - 0xD800) * 0x400 + (next - 0xDC00)
        (fromPairs? rest).map (Char.ofNat full :: ·)
      else none
    else if 0xDC00 ≤ code && code < 0xE000 then none
    else (fromPairs? (next :: rest)).map (Char.ofNat code :: ·)

def character? (code : Nat) : Option Char :=
  if code < 0xD800 || (0xE000 ≤ code && code < 0x110000) then some (Char.ofNat code) else none

/-- The order that a mark at the start tells, and the data behind the mark. -/
def marked (mark : List UInt8) (data : List UInt8) : ByteOrder × List UInt8 :=
  let start := data.take mark.length
  if start == mark then (.littleFirst, data.drop mark.length)
  else if start == mark.reverse then (.bigFirst, data.drop mark.length)
  else (.littleFirst, data)

/-- The mark that tells the order of bytes, in numbers of two bytes. -/
def pairMark : List UInt8 :=
  [0xFF, 0xFE]

/-- The mark that tells the order of bytes, in numbers of four bytes. -/
def quadMark : List UInt8 :=
  [0xFF, 0xFE, 0, 0]

/-- The text of bytes in an encoding; none if they are no text. -/
def decode? (encoding : Encoding) (data : List UInt8) : Option String :=
  match encoding with
  | .ascii =>
    if data.all (· < 128) then some (String.ofList (byteText data)) else none
  | .latin1 => some (String.ofList (byteText data))
  | .windows => (data.mapM windowsCharacter?).map String.ofList
  | .utf8 => String.fromUTF8? ⟨data.toArray⟩
  | .utf8Marked =>
    let text := if data.take 3 == [0xEF, 0xBB, 0xBF] then data.drop 3 else data
    String.fromUTF8? ⟨text.toArray⟩
  | .utf16 order =>
    let (order, data) := (order.map fun order => (order, data)).getD (marked pairMark data)
    ((numbers? 2 order data.length data).bind fromPairs?).map String.ofList
  | .utf32 order =>
    let (order, data) := (order.map fun order => (order, data)).getD (marked quadMark data)
    ((numbers? 4 order data.length data).bind (·.mapM character?)).map String.ofList

end Encoding

end Weave.Text
