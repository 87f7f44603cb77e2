import Weave.ParseFault
import Weave.Text.Blank
import Weave.Text.Letter
import Weave.TypeSpec

namespace Weave.TypeSpec

/-!
# Type specifications read from text

The annotations of declared functions are read character by character.  A name may
hold letters and digits of any script, underscores and colons, and blanks may
stand around every part.
-/

def isNameCharacter (character : Char) : Bool :=
  Text.isLetterOrDigit character || character == '_' || character == ':'

/-- The generics up to the closing bracket, each read by the given function. -/
def genericsOf (item : List Char → Except ParseFault (TypeSpec × List Char)) :
    Nat → List Char → Except ParseFault (List TypeSpec × List Char)
  | 0, _ => .error .exhausted
  | bound + 1, text => do
    let (first, rest) ← item text
    match Text.trimStart rest with
    | ',' :: further =>
      let (others, left) ← genericsOf item bound further
      return (first :: others, left)
    | '>' :: left => return ([first], left)
    | _ => throw .unterminatedGenerics

/-- The specification a text starts with; the fuel bounds the depth of generics. -/
def readWithin : Nat → List Char → Except ParseFault (TypeSpec × List Char)
  | 0, _ => .error .exhausted
  | bound + 1, text => do
    let start := Text.trimStart text
    let name := start.takeWhile isNameCharacter
    if name.isEmpty then
      throw .missingTypeName
    else
      match Text.trimStart (start.dropWhile isNameCharacter) with
      | '<' :: inner =>
        let (generics, rest) ← genericsOf (readWithin bound) (bound + 1) inner
        return (.mk (String.ofList name) generics, rest)
      | rest => return (.mk (String.ofList name) [], rest)

def parse (source : List Char) : Except ParseFault TypeSpec := do
  let (spec, rest) ← readWithin (source.length + 1) source
  if (Text.trimStart rest).isEmpty then
    return spec
  else
    throw (.invalidTypeSpec (String.ofList source))

end Weave.TypeSpec
