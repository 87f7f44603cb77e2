import Weave.Decimal.Read
import Weave.Fault
import Weave.Text.Escape
import Weave.Value

namespace Weave.Json

/-!
# Reading JSON

A whole text read as one value.  Integers keep all their digits, other numbers
become floats, and the words for numbers that are no decimals are accepted.  Of
entries with the same key the last one counts, at the place of the first.
-/

def isBlank (character : Char) : Bool :=
  character == ' ' || character == '\t' || character == '\n' || character == '\r'

def skipBlanks (text : List Char) : List Char :=
  text.dropWhile isBlank

def escapeLetter? : Char → Option Char
  | '"' => some '"'
  | '\\' => some '\\'
  | '/' => some '/'
  | 'b' => some '\x08'
  | 'f' => some '\x0c'
  | 'n' => some '\n'
  | 'r' => some '\r'
  | 't' => some '\t'
  | _ => none

def fourDigits? (a b c d : Char) : Option Nat := do
  let a ← Text.hexDigit? a
  let b ← Text.hexDigit? b
  let c ← Text.hexDigit? c
  let d ← Text.hexDigit? d
  return ((a * 16 + b) * 16 + c) * 16 + d

def isFirstHalf (code : Nat) : Bool :=
  0xD800 ≤ code && code < 0xDC00

def isSecondHalf (code : Nat) : Bool :=
  0xDC00 ≤ code && code < 0xE000

def pairCharacter (first second : Nat) : Char :=
  Text.Escape.scalar (0x10000 + (first - 0xD800) * 0x400 + (second - 0xDC00))

/-- The character that stands for a half left alone. -/
def lone : Option Nat → List Char
  | some code => [Text.Escape.scalar code]
  | none => []

/-- The rest of a string after its opening quote; a first half may be waiting for its second. -/
def stringFrom : Option Nat → List Char → Except Defect (List Char × List Char)
  | _, [] => .error .badJson
  | half, '"' :: rest => .ok (lone half, rest)
  | half, '\\' :: 'u' :: a :: b :: c :: d :: rest =>
    match fourDigits? a b c d with
    | none => .error .badJson
    | some code =>
      match half with
      | some first =>
        if isSecondHalf code then do
          let (others, left) ← stringFrom none rest
          return (pairCharacter first code :: others, left)
        else if isFirstHalf code then do
          let (others, left) ← stringFrom (some code) rest
          return (lone half ++ others, left)
        else do
          let (others, left) ← stringFrom none rest
          return (lone half ++ Text.Escape.scalar code :: others, left)
      | none =>
        if isFirstHalf code then stringFrom (some code) rest
        else do
          let (others, left) ← stringFrom none rest
          return (Text.Escape.scalar code :: others, left)
  | half, '\\' :: letter :: rest =>
    match escapeLetter? letter with
    | none => .error .badJson
    | some character => do
      let (others, left) ← stringFrom none rest
      return (lone half ++ character :: others, left)
  | half, character :: rest =>
    if character.toNat < 32 || character = '\\' then .error .badJson
    else do
      let (others, left) ← stringFrom none rest
      return (lone half ++ character :: others, left)

def spanDigits (text : List Char) : List Char × List Char :=
  (text.takeWhile Char.isDigit, text.dropWhile Char.isDigit)

/-- The fraction a text starts with, if a point and a digit stand there. -/
def fractionPart (text : List Char) : List Char × List Char :=
  match text with
  | '.' :: rest =>
    let (digits, left) := spanDigits rest
    if digits.isEmpty then ([], text) else (digits, left)
  | _ => ([], text)

/-- The exponent a text starts with, if a mark and digits stand there. -/
def exponentPart (text : List Char) : Option Int × List Char :=
  match text with
  | mark :: rest =>
    if mark == 'e' || mark == 'E' then
      let (negative, unsigned) := Decimal.splitSign rest
      let (digits, left) := spanDigits unsigned
      if digits.isEmpty then (none, text)
      else (some (Decimal.signed negative (Decimal.digitsValue digits)), left)
    else (none, text)
  | [] => (none, text)

/-- The whole part of a number: a zero, or digits that start with none. -/
def wholePart (text : List Char) : List Char × List Char :=
  match text with
  | '0' :: rest => (['0'], rest)
  | _ => spanDigits text

/-- Read a number. -/
def number (text : List Char) : Except Defect (Value × List Char) :=
  let (negative, unsigned) :=
    match text with
    | '-' :: rest => (true, rest)
    | _ => (false, text)
  let (whole, rest) := wholePart unsigned
  if whole.isEmpty then .error .badJson
  else
    let (fraction, rest) := fractionPart rest
    let (exponent, rest) := exponentPart rest
    if fraction.isEmpty && exponent.isNone then
      if whole.length > Decimal.integerDigitLimit then .error .domain
      else .ok (.int (Decimal.signed negative (Decimal.digitsValue whole)), rest)
    else
      let power := exponent.getD 0 - fraction.length
      let digits := Decimal.digitsValue (whole ++ fraction)
      .ok (.float (Decimal.ofDecimal negative digits power), rest)

def wordValues : List (String × Value) :=
  [("null", .null), ("true", .bool true), ("false", .bool false), ("NaN", .float (0.0 / 0.0)),
    ("Infinity", .float (1.0 / 0.0)), ("-Infinity", .float (-1.0 / 0.0))]

def afterWord? : List Char → List Char → Option (List Char)
  | [], rest => some rest
  | expected :: word, character :: rest =>
    if expected = character then afterWord? word rest else none
  | _ :: _, [] => none

/-- Read a word or a number. -/
def scalar (text : List Char) : Except Defect (Value × List Char) :=
  let found := wordValues.findSome? fun (word, value) =>
    (afterWord? word.toList text).map fun rest => (value, rest)
  match found with
  | some result => .ok result
  | none => number text

/-- The parts up to a closing sign, with commas between them, each read by the given function. -/
def seriesOf {α : Type} (part : List Char → Except Defect (α × List Char)) (closing : Char) :
    Nat → List Char → Except Defect (List α × List Char)
  | 0, _ => .error .badJson
  | bound + 1, text => do
    let (first, rest) ← part text
    match skipBlanks rest with
    | [] => throw .badJson
    | next :: further =>
      if next = ',' then
        let (others, left) ← seriesOf part closing bound further
        return (first :: others, left)
      else if next = closing then return ([first], further)
      else throw .badJson

/-- An entry of an object: a quoted name, a colon and a value. -/
def entryOf (item : List Char → Except Defect (Value × List Char)) (text : List Char) :
    Except Defect ((Key × Value) × List Char) :=
  match skipBlanks text with
  | '"' :: rest => do
    let (name, rest) ← stringFrom none rest
    match skipBlanks rest with
    | ':' :: rest =>
      let (value, left) ← item (skipBlanks rest)
      return ((.text (String.ofList name), value), left)
    | _ => throw .badJson
  | _ => .error .badJson

/-- The value a text starts with; the fuel bounds the depth. -/
def valueWithin : Nat → List Char → Except Defect (Value × List Char)
  | 0, _ => .error .badJson
  | bound + 1, text =>
    match text with
    | '"' :: rest => do
      let (characters, left) ← stringFrom none rest
      return (.text (String.ofList characters), left)
    | '[' :: rest =>
      match skipBlanks rest with
      | ']' :: left => .ok (.array [], left)
      | _ => do
        let (items, left) ←
          seriesOf (fun text => valueWithin bound (skipBlanks text)) ']' (bound + 1) rest
        return (.array items, left)
    | '{' :: rest =>
      match skipBlanks rest with
      | '}' :: left => .ok (.record [], left)
      | _ => do
        let (entries, left) ← seriesOf (entryOf (valueWithin bound)) '}' (bound + 1) rest
        return (.record (Entries.ofList entries), left)
    | _ => scalar text

/-- Read a document. -/
def read (source : List Char) : Except Defect Value := do
  let (value, rest) ← valueWithin (source.length + 1) (skipBlanks source)
  if (skipBlanks rest).isEmpty then return value else throw .badJson

end Weave.Json
