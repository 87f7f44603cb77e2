import Weave.Fault
import Weave.Pattern

namespace Weave.Pattern

/-!
# Patterns as they are written

Reads a pattern: characters, classes in brackets, escapes, groups with their
extensions, alternatives, repetitions, anchors and switches.  What cannot be read is
refused without further reason.
-/

/-- What is left to read, and the groups met so far. -/
structure Cursor where
  rest : List Char
  groups : Nat
  names : List (String × Nat)
  pending : List Nat
  /-- The last group a condition asks for; it may follow later. -/
  wanted : Nat

/-- A reading of a pattern from its characters. -/
abbrev Reading := StateT Cursor (Except Defect)

/-- The source is no pattern. -/
def refuse : Reading α :=
  throw .badPattern

/-- The next character, which is not taken. -/
def peek : Reading (Option Char) := do
  return (← get).rest.head?

/-- Take the next character, if there is one. -/
def take? : Reading (Option Char) := do
  let cursor ← get
  match cursor.rest with
  | [] => return none
  | character :: rest =>
    set { cursor with rest := rest }
    return some character

/-- Take the next character, which must be there. -/
def take : Reading Char := do
  match ← take? with
  | some character => return character
  | none => refuse

/-- Take the next character if it is the given one. -/
def accept (character : Char) : Reading Bool := do
  if (← peek) == some character then
    let _ ← take?
    return true
  else
    return false

/-- Take the longest run of characters of a class, up to a length. -/
def takeWhile (length : Nat) (holds : Char → Bool) : Reading (List Char) := do
  let cursor ← get
  let run := (cursor.rest.take length).takeWhile holds
  set { cursor with rest := cursor.rest.drop run.length }
  return run

/-- The characters in front of a mark, which is taken too. -/
def takeUntil (mark : Char) : Reading (List Char) := do
  let cursor ← get
  let run := cursor.rest.takeWhile (· != mark)
  set { cursor with rest := cursor.rest.drop run.length }
  if ← accept mark then return run else refuse

/-- The number that digits stand for in a base. -/
def valueOf (base : Nat) (digits : List Char) : Nat :=
  digits.foldl (fun value digit => value * base + (Text.hexDigit? digit).getD 0) 0

/-- The digits below eight. -/
def isOctal (character : Char) : Bool :=
  '0' ≤ character && character ≤ '7'

/-- A character by its code in so many hexadecimal digits. -/
def codeEscape (width : Nat) : Reading Char := do
  let digits ← takeWhile width fun character => (Text.hexDigit? character).isSome
  let code := valueOf 16 digits
  if digits.length == width && code < 0x110000 then return Char.ofNat code else refuse

/-- A character of one byte by its code in octal digits. -/
def octal (digits : List Char) : Reading Char := do
  let code := valueOf 8 digits
  if code ≤ 0xff then return Char.ofNat code else refuse

/-- The control characters that letters stand for. -/
def control? : Char → Option Char
  | 'a' => some '\x07'
  | 'f' => some '\x0c'
  | 'n' => some '\n'
  | 'r' => some '\r'
  | 't' => some '\t'
  | 'v' => some '\x0b'
  | _ => none

/-- The classes of characters that letters stand for. -/
def class? : Char → Option Member
  | 'd' => some (.kind .digit false)
  | 'D' => some (.kind .digit true)
  | 's' => some (.kind .blank false)
  | 'S' => some (.kind .blank true)
  | 'w' => some (.kind .word false)
  | 'W' => some (.kind .word true)
  | _ => none

/-- The places that letters stand for. -/
def anchor? : Char → Option Anchor
  | 'A' => some .textStart
  | 'Z' => some .textEnd
  | 'b' => some .wordBoundary
  | 'B' => some .wordInside
  | _ => none

/-- The character that an escaped one, which is no class, place or number, stands for. -/
def plainEscape (character : Char) : Reading Char := do
  match character with
  | 'x' => codeEscape 2
  | 'u' => codeEscape 4
  | 'U' => codeEscape 8
  | character =>
    match control? character with
    | some control => return control
    | none =>
      if character.isAlpha || character.isDigit then refuse else return character

/-- A member of a set behind a backslash. -/
def memberEscape : Reading Member := do
  let character ← take
  match class? character with
  | some member => return member
  | none =>
    if character == 'b' then
      return .range '\x08' '\x08'
    else if isOctal character then
      let more ← takeWhile 2 isOctal
      let code ← octal (character :: more)
      return .range code code
    else
      let code ← plainEscape character
      return .range code code

/-- A member of a set. -/
def member : Reading Member := do
  let character ← take
  if character == '\\' then memberEscape else return .range character character

/-- The character of a member that is just one. -/
def only? : Member → Option Char
  | .range first last => if first = last then some first else none
  | .kind .. => none

/-- The parts of a set up to the closing bracket, which does not close an empty set. -/
def members : Nat → Bool → Reading (List Member)
  | 0, _ => refuse
  | fuel + 1, isFirst => do
    if !isFirst && (← accept ']') then
      return []
    let first ← member
    if ← accept '-' then
      if ← accept ']' then
        return [first, .range '-' '-']
      let last ← member
      match only? first, only? last with
      | some low, some high =>
        if high < low then refuse
        else return .range low high :: (← members fuel false)
      | _, _ => refuse
    else
      return first :: (← members fuel false)

/-- A group can be referred to once it is closed. -/
def closedGroup (index : Nat) : Reading Unit := do
  let cursor ← get
  if index ≤ cursor.groups && !cursor.pending.contains index then return () else refuse

/-- A back-reference, or a character by its octal code, that starts with a digit. -/
def numberEscape (mode : Mode) (first : Char) : Reading Node := do
  if first == '0' then
    let more ← takeWhile 2 isOctal
    return .character (← octal (first :: more)) mode.ignoreCase
  let second ← takeWhile 1 Char.isDigit
  let third := (← peek).map isOctal |>.getD false
  if isOctal first && !second.isEmpty && second.all isOctal && third then
    return .character (← octal (first :: second ++ [← take])) mode.ignoreCase
  let index := valueOf 10 (first :: second)
  closedGroup index
  return .reference index mode.ignoreCase

/-- What stands behind a backslash outside of a set. -/
def escape (mode : Mode) : Reading Node := do
  let character ← take
  match anchor? character, class? character with
  | some place, _ => return .anchor place mode.asciiOnly
  | none, some member => return .oneOf false [member] mode.ignoreCase mode.asciiOnly
  | none, none =>
    if character.isDigit then numberEscape mode character
    else return .character (← plainEscape character) mode.ignoreCase

/-- The number of rounds a brace gives; a brace that gives none is a plain character. -/
def braces : Reading (Option (Nat × Option Nat)) := do
  let opened ← get
  if (← peek) == some '\x7d' then
    return none
  let least ← takeWhile opened.rest.length Char.isDigit
  let hasComma ← accept ','
  let most ← if hasComma then takeWhile opened.rest.length Char.isDigit else pure least
  if !(← accept '\x7d') then
    set opened
    return none
  let low := valueOf 10 least
  if most.isEmpty then
    return some (low, none)
  let high := valueOf 10 most
  if high < low then refuse else return some (low, some high)

/-- The number of rounds that a sign of repetition gives. -/
def count? (sign : Char) : Reading (Option (Nat × Option Nat)) :=
  match sign with
  | '*' => return some (0, none)
  | '+' => return some (1, none)
  | '?' => return some (0, some 1)
  | '\x7b' => braces
  | _ => return none

/-- The mark of greed behind a repetition. -/
def greed : Reading Greed := do
  if ← accept '?' then return .least
  else if ← accept '+' then return .keep
  else return .most

/-- Neither places nor repetitions are repeated. -/
def isRepeatable : Node → Bool
  | .anchor .. => false
  | .repetition .. => false
  | _ => true

/-- Nodes one after the other. -/
def ofList : List Node → Node
  | [] => .empty
  | [node] => node
  | node :: rest => .sequence node (ofList rest)

/-- A mode with the switch of a letter turned on or off. -/
def Mode.switch? (mode : Mode) (value : Bool) : Char → Option Mode
  | 'i' => some { mode with ignoreCase := value }
  | 'm' => some { mode with everyLine := value }
  | 's' => some { mode with pointHoldsAll := value }
  | 'x' => some { mode with verbose := value }
  | 'a' => if value then some { mode with asciiOnly := true } else none
  | 'u' => if value then some { mode with asciiOnly := false } else none
  | _ => none

/-- A mode with the switches of several letters turned on or off. -/
def Mode.switchAll? (value : Bool) : Mode → List Char → Option Mode
  | mode, [] => some mode
  | mode, letter :: rest => (mode.switch? value letter).bind (switchAll? value · rest)

/-- The name of a group is a word. -/
def isGroupName (name : List Char) : Bool :=
  match name with
  | [] => false
  | first :: _ =>
    !Text.isDigit first && name.all Text.isWordCharacter

/-- The number of a group that is referred to by number or by name. -/
def groupNamed (name : List Char) : Reading Nat := do
  if !name.isEmpty && name.all Char.isDigit then
    return valueOf 10 name
  match (← get).names.lookup (String.ofList name) with
  | some index => return index
  | none => refuse

/-- A group that captures; its number is that of its opening parenthesis. -/
def capturing (alternatives : Reading Node) (name : Option String) : Reading Node := do
  let cursor ← get
  let index := cursor.groups + 1
  let names ←
    match name with
    | none => pure cursor.names
    | some name =>
      if (cursor.names.lookup name).isSome then refuse else pure ((name, index) :: cursor.names)
  set { cursor with groups := index, names := names, pending := index :: cursor.pending }
  let body ← alternatives
  modify fun cursor => { cursor with pending := cursor.pending.erase index }
  return .group index body

/-- A condition on what stands in front, which must have one width. -/
def behindOf (negated : Bool) (body : Node) : Reading Node := do
  match body.width with
  | (least, some most) => if least == most then return .behind negated least body else refuse
  | (_, none) => refuse

/-- A branch for a group that took part, and another for one that did not. -/
def conditional (branch : Reading Node) : Reading Node := do
  let name ← takeUntil ')'
  let index ← groupNamed name
  if index == 0 then
    refuse
  modify fun cursor => { cursor with wanted := max cursor.wanted index }
  let whenSet ← branch
  if ← accept '|' then
    return .whether index whenSet (← branch)
  else
    return .whether index whenSet .empty

/-- A group with switches of its own. -/
def switched (alternatives : Mode → Reading Node) (mode : Mode) : Reading Node := do
  let on ← takeWhile 16 Char.isAlpha
  let off ← if ← accept '-' then
      let letters ← takeWhile 16 Char.isAlpha
      if letters.isEmpty then refuse else pure letters
    else pure []
  if !(← accept ':') then
    refuse
  if on.contains 'a' && on.contains 'u' then
    refuse
  match (mode.switchAll? true on).bind (·.switchAll? false off) with
  | some inner => alternatives inner
  | none => refuse

/-- A named group, or a reference to one. -/
def named (alternatives : Mode → Reading Node) (mode : Mode) : Reading Node := do
  if ← accept '<' then
    let name ← takeUntil '>'
    if isGroupName name then capturing (alternatives mode) (some (String.ofList name)) else refuse
  else if ← accept '=' then
    let name ← takeUntil ')'
    let cursor ← get
    match cursor.names.lookup (String.ofList name) with
    | some index =>
      closedGroup index
      -- The closing parenthesis has been taken with the name.
      set { cursor with rest := ')' :: cursor.rest }
      return .reference index mode.ignoreCase
    | none => refuse
  else refuse

/-- A group that is not remembered; as a group it may be repeated, whatever it holds. -/
def enclosed (body : Reading Node) : Reading Node := do
  return .sequence (← body) .empty

/-- What follows the question mark of an extended group. -/
def extended (alternatives branch : Mode → Reading Node) (mode : Mode) :
    Reading Node := do
  let opened ← get
  match ← take with
  | ':' => enclosed (alternatives mode)
  | 'P' => named alternatives mode
  | '=' => return .ahead false (← alternatives mode)
  | '!' => return .ahead true (← alternatives mode)
  | '>' => return .decided (← alternatives mode)
  | '(' => conditional (branch mode)
  | '<' =>
    if ← accept '=' then behindOf false (← alternatives mode)
    else if ← accept '!' then behindOf true (← alternatives mode)
    else refuse
  | _ =>
    set opened
    enclosed (switched alternatives mode)

/-- A group, its opening parenthesis taken; a comment gives no node. -/
def group (alternatives branch : Mode → Reading Node) (mode : Mode) : Reading (Option Node) := do
  if ← accept '?' then
    if ← accept '#' then
      let _ ← takeUntil ')'
      return none
    let node ← extended alternatives branch mode
    if ← accept ')' then return some node else refuse
  else
    let node ← capturing (alternatives mode) none
    if ← accept ')' then return some node else refuse

/-- One item, its first character taken; a comment gives none. -/
def item (alternatives branch : Mode → Reading Node) (mode : Mode) (character : Char) :
    Reading (Option Node) := do
  match character with
  | '\\' => return some (← escape mode)
  | '.' => return some (.point mode.pointHoldsAll)
  | '^' => return some (.anchor (if mode.everyLine then .lineStart else .textStart) mode.asciiOnly)
  | '$' => return some (.anchor (if mode.everyLine then .lineEnd else .finalLineEnd) mode.asciiOnly)
  | '[' =>
    let negated ← accept '^'
    let parts ← members ((← get).rest.length + 1) true
    return some (.oneOf negated parts mode.ignoreCase mode.asciiOnly)
  | '(' => group alternatives branch mode
  | character => return some (.character character mode.ignoreCase)

/-- The items of a branch; those read so far are held in reverse. -/
def items (alternatives branch : Mode → Reading Node) (mode : Mode) :
    Nat → List Node → Reading (List Node)
  | 0, sofar => return sofar
  | fuel + 1, sofar => do
    match ← peek with
    | none | some '|' | some ')' => return sofar
    | some character =>
      let _ ← take?
      if mode.verbose && Text.isBlank character && character.toNat < 128 then
        items alternatives branch mode fuel sofar
      else if mode.verbose && character == '#' then
        let cursor ← get
        set { cursor with rest := cursor.rest.dropWhile (· != '\n') }
        items alternatives branch mode fuel sofar
      else
        match ← count? character with
        | some (least, most) =>
          match sofar with
          | [] => refuse
          | last :: earlier =>
            if isRepeatable last then
              let node := Node.repetition least most (← greed) last
              items alternatives branch mode fuel (node :: earlier)
            else refuse
        | none =>
          match ← item alternatives branch mode character with
          | some node => items alternatives branch mode fuel (node :: sofar)
          | none => items alternatives branch mode fuel sofar

/-- Branches with bars between them. -/
def branches (branch : Reading Node) : Nat → Reading Node
  | 0 => branch
  | fuel + 1 => do
    let first ← branch
    if ← accept '|' then return .choice first (← branches branch fuel) else return first

/-- Alternatives and branches in which groups are nested up to a depth. -/
structure Nesting where
  alternatives : Mode → Reading Node
  branch : Mode → Reading Node

/-- The readers of what may hold a group. -/
def Nesting.deeper (inner : Nesting) : Nesting :=
  let branch (mode : Mode) : Reading Node := do
    let nodes ← items inner.alternatives inner.branch mode ((← get).rest.length + 1) []
    return ofList nodes.reverse
  { branch := branch
    alternatives := fun mode => do branches (branch mode) ((← get).rest.length + 1) }

/-- The readers of patterns with so many groups inside of each other. -/
def Nesting.upTo : Nat → Nesting
  | 0 => ⟨fun _ => refuse, fun _ => refuse⟩
  | depth + 1 => (upTo depth).deeper

/-- The switches a pattern starts with; they hold for the whole pattern. -/
def switches : Nat → Mode → List Char → Mode × List Char
  | 0, mode, text => (mode, text)
  | fuel + 1, mode, text =>
    match text with
    | '(' :: '?' :: rest =>
      let letters := rest.takeWhile Char.isAlpha
      match rest.drop letters.length, letters.isEmpty, mode.switchAll? true letters with
      | ')' :: behind, false, some mode => switches fuel mode behind
      | _, _, _ => (mode, text)
    | _ => (mode, text)

/-- Read a pattern; switches in front of it hold for all of it. -/
def parse (source : List Char) : Except Defect Pattern := do
  let (mode, text) := switches source.length .plain source
  let depth := source.length + 1
  let (root, cursor) ← ((Nesting.upTo depth).alternatives mode).run ⟨text, 0, [], [], 0⟩
  let isComplete := cursor.rest.isEmpty && cursor.wanted ≤ cursor.groups
  if isComplete then return ⟨root, cursor.groups⟩ else throw .badPattern

end Weave.Pattern
