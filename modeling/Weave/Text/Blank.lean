namespace Weave.Text

/-!
# Blank characters

The characters that separate words, and the three ways a text is cut at them:
trimmed at both ends, split into words, and split into lines.  Lines end at a
wider set of characters than the line feed, and a carriage return followed by a
line feed ends one line, not two.
-/

/-- A blank is a character of white space, beyond ASCII as well. -/
def isBlank (character : Char) : Bool :=
  let code := character.toNat
  (9 ≤ code && code ≤ 13) || (28 ≤ code && code ≤ 32) || code == 0x85 || code == 0xA0 ||
    code == 0x1680 || (0x2000 ≤ code && code ≤ 0x200A) || code == 0x2028 || code == 0x2029 ||
    code == 0x202F || code == 0x205F || code == 0x3000

def trimStart (text : List Char) : List Char :=
  text.dropWhile isBlank

def dropEndWhile (matching : Char → Bool) (text : List Char) : List Char :=
  (text.reverse.dropWhile matching).reverse

/-- A text without blanks around it. -/
def trim (text : List Char) : List Char :=
  dropEndWhile isBlank (trimStart text)

def trimmed (text : String) : String :=
  String.ofList (trim text.toList)

/-- Drop one character, however often repeated, at both ends. -/
def trimOnly (character : Char) (text : List Char) : List Char :=
  dropEndWhile (· == character) (text.dropWhile (· == character))

/-- Collect words: the characters of the word being read are held in reverse. -/
def wordsFrom : List Char → List Char → List (List Char)
  | [], [] => []
  | word, [] => [word.reverse]
  | word, character :: rest =>
    if isBlank character then
      if word.isEmpty then wordsFrom [] rest else word.reverse :: wordsFrom [] rest
    else
      wordsFrom (character :: word) rest

/-- The maximal runs of characters that are not blank. -/
def words (text : List Char) : List (List Char) :=
  wordsFrom [] text

def isLineEnd (character : Char) : Bool :=
  let code := character.toNat
  (10 ≤ code && code ≤ 13) || (28 ≤ code && code ≤ 30) || code == 0x85 ||
    code == 0x2028 || code == 0x2029

/-- Collect lines: the characters of the line being read are held in reverse. -/
def linesFrom : List Char → List Char → List (List Char)
  | [], [] => []
  | line, [] => [line.reverse]
  | line, '\r' :: '\n' :: rest => line.reverse :: linesFrom [] rest
  | line, character :: rest =>
    if isLineEnd character then line.reverse :: linesFrom [] rest
    else linesFrom (character :: line) rest

/-- The lines of a text without their ends; a final line end opens no further line. -/
def lines (text : List Char) : List (List Char) :=
  linesFrom [] text

/-- A text in which a line feed ends every line that a carriage return ended before. -/
def withLineFeeds : List Char → List Char
  | [] => []
  | '\r' :: '\n' :: rest => '\n' :: withLineFeeds rest
  | '\r' :: rest => '\n' :: withLineFeeds rest
  | character :: rest => character :: withLineFeeds rest

def linesOf (text : String) : List String :=
  (lines text.toList).map String.ofList

end Weave.Text
