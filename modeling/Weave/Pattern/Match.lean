import Weave.Pattern

namespace Weave.Pattern

/-!
# Matching

Matching tries the ways a pattern can match in order and takes the first one after
which the rest of the pattern matches as well.  A repetition is tried again only if
its last round moved forward, so every search ends.
-/

/-- A place in a text, with the texts the groups have matched. -/
structure State where
  /-- The characters in front, the nearest first. -/
  passed : List Char
  rest : List Char
  offset : Nat
  captured : List (Nat × List Char)

/-- What has to match behind a node. -/
abbrev Continuation := State → Option State

namespace State

/-- The state in front of a text. -/
def start (text : List Char) : State :=
  ⟨[], text, 0, []⟩

/-- The next character and the state behind it. -/
def next? (state : State) : Option (Char × State) :=
  match state.rest with
  | [] => none
  | character :: rest =>
    some (character, { state with
      passed := character :: state.passed, rest := rest, offset := state.offset + 1 })

/-- Keep the text between two places as the match of a group. -/
def capture (state : State) (group : Nat) (opened : State) : State :=
  { state with
    captured := (group, opened.rest.take (state.offset - opened.offset)) :: state.captured }

/-- The characters that a group has captured last. -/
def group? (state : State) (group : Nat) : Option (List Char) :=
  state.captured.lookup group

/-- The state so many characters before. -/
def back? : Nat → State → Option State
  | 0, state => some state
  | count + 1, state =>
    match state.passed with
    | [] => none
    | character :: passed =>
      back? count { state with
        passed := passed, rest := character :: state.rest, offset := state.offset - 1 }

/-- The place behind a text that must come next. -/
def after? (same : Char → Char → Bool) : List Char → State → Option State
  | [], state => some state
  | wanted :: text, state =>
    match state.next? with
    | some (character, behind) => if same wanted character then after? same text behind else none
    | none => none

end State

/-- Whether a place is of the kind that an anchor asks for. -/
def Anchor.holds (asciiOnly : Bool) (anchor : Anchor) (state : State) : Bool :=
  let isWord (neighbour : Option Char) : Bool :=
    (neighbour.map fun character => Class.holds asciiOnly .word character).getD false
  let isBoundary := isWord state.passed.head? != isWord state.rest.head?
  let isEmptyText := state.passed.isEmpty && state.rest.isEmpty
  match anchor with
  | .textStart => state.passed.isEmpty
  | .lineStart => state.passed.isEmpty || state.passed.head? == some '\n'
  | .textEnd => state.rest.isEmpty
  | .finalLineEnd => state.rest.isEmpty || state.rest == ['\n']
  | .lineEnd => state.rest.isEmpty || state.rest.head? == some '\n'
  | .wordBoundary => !isEmptyText && isBoundary
  | .wordInside => !isEmptyText && !isBoundary

/-- Match one character of which a condition holds. -/
def one (holds : Char → Bool) (continuation : Continuation) (state : State) : Option State :=
  match state.next? with
  | some (character, behind) => if holds character then continuation behind else none
  | none => none

/-- Match in the first way that works. -/
def either (first second : Continuation) (state : State) : Option State :=
  match first state with
  | some done => some done
  | none => second state

/--
Match a body repeatedly.  Below the least count the body must match; beyond it, a
round is tried only from a place where no round has started before.
-/
def rounds (body : Continuation → Continuation) (least : Nat) (most : Option Nat) (lazy : Bool)
    (continuation : Continuation) :
    Nat → Nat → Option Nat → Continuation
  | 0, _, _ => fun _ => none
  | fuel + 1, count, last => fun state =>
    if count < least then
      body (rounds body least most lazy continuation fuel (count + 1) last) state
    else
      let again : Continuation := fun state =>
        if most.all (fun limit => count < limit) && last != some state.offset then
          body (rounds body least most lazy continuation fuel (count + 1) (some state.offset))
            state
        else none
      if lazy then either continuation again state else either again continuation state

/-- Match a pattern, and after it what remains. -/
def Node.run : Node → Continuation → Continuation
  | .empty, continuation => continuation
  | .character wanted ignoreCase, continuation =>
    one (if ignoreCase then sameLetter wanted else (· == wanted)) continuation
  | .point holdsAll, continuation =>
    one (fun character => holdsAll || character != '\n') continuation
  | .oneOf negated members ignoreCase asciiOnly, continuation =>
    one (fun character => memberOf members ignoreCase asciiOnly character != negated) continuation
  | .anchor place asciiOnly, continuation => fun state =>
    if place.holds asciiOnly state then continuation state else none
  | .group index body, continuation => fun state =>
    body.run (fun closed => continuation (closed.capture index state)) state
  | .reference index ignoreCase, continuation => fun state =>
    match state.group? index with
    | none => none
    | some text =>
      match state.after? (if ignoreCase then sameLetter else (· == ·)) text with
      | some reached => continuation reached
      | none => none
  | .sequence first second, continuation => first.run (second.run continuation)
  | .choice first second, continuation =>
    either (first.run continuation) (second.run continuation)
  | .repetition least most greed body, continuation => fun state =>
    let fuel := least + state.rest.length + 2
    match greed with
    | .most => rounds body.run least most false continuation fuel 0 none state
    | .least => rounds body.run least most true continuation fuel 0 none state
    | .keep =>
      match rounds body.run least most false some fuel 0 none state with
      | some done => continuation done
      | none => none
  | .ahead negated body, continuation => fun state =>
    match body.run some state, negated with
    | some done, false => continuation { state with captured := done.captured }
    | none, true => continuation state
    | _, _ => none
  | .behind negated width body, continuation => fun state =>
    let found := (state.back? width).bind fun back =>
      body.run (fun reached => if reached.offset == state.offset then some reached else none) back
    match found, negated with
    | some done, false => continuation { state with captured := done.captured }
    | none, true => continuation state
    | _, _ => none
  | .decided body, continuation => fun state =>
    match body.run some state with
    | some done => continuation done
    | none => none
  | .whether index whenSet whenUnset, continuation => fun state =>
    if (state.group? index).isSome then whenSet.run continuation state
    else whenUnset.run continuation state

/-- A match: where it starts, its text, and the texts of its groups. -/
structure Found where
  start : Nat
  text : List Char
  groups : List (Option (List Char))

/-- What a match between two states has found. -/
def found (pattern : Pattern) (opened closed : State) : Found where
  start := opened.offset
  text := opened.rest.take (closed.offset - opened.offset)
  groups := (List.range pattern.groups).map fun index => closed.group? (index + 1)

/-- The match at the start of a text. -/
def matchStart? (pattern : Pattern) (text : List Char) : Option Found :=
  let opened := State.start text
  (pattern.root.run some opened).map (pattern.found opened)

/-- Whether a pattern matches a text from its start to its end. -/
def matchesAll (pattern : Pattern) (text : List Char) : Bool :=
  (pattern.root.run (fun state => if state.rest.isEmpty then some state else none)
    (State.start text)).isSome

/-- The first match at a place or behind it, with the place behind the match. -/
def searchFrom (pattern : Pattern) : Nat → State → Option (Found × State)
  | 0, _ => none
  | fuel + 1, state =>
    let opened := { state with captured := [] }
    match pattern.root.run some opened with
    | some closed => some (pattern.found opened closed, closed)
    | none =>
      match state.next? with
      | some (_, behind) => pattern.searchFrom fuel behind
      | none => none

/-- The first match from a place on; the match at the place itself may have to move forward. -/
def search (pattern : Pattern) (mustMove : Bool) (state : State) : Option (Found × State) :=
  let fuel := state.rest.length + 1
  if mustMove then
    let opened := { state with captured := [] }
    let moved := pattern.root.run
      (fun closed => if closed.offset == opened.offset then none else some closed) opened
    match moved with
    | some closed => some (pattern.found opened closed, closed)
    | none =>
      match state.next? with
      | some (_, behind) => pattern.searchFrom fuel behind
      | none => none
  else pattern.searchFrom fuel state

/-- All matches from a place on; after an empty match the next one must move forward. -/
def allFrom (pattern : Pattern) : Nat → Bool → State → List Found
  | 0, _, _ => []
  | fuel + 1, mustMove, state =>
    match pattern.search mustMove state with
    | some (hit, behind) =>
      hit :: pattern.allFrom fuel hit.text.isEmpty behind
    | none => []

/-- All matches in a text, from left to right. -/
def all (pattern : Pattern) (text : List Char) : List Found :=
  pattern.allFrom (2 * text.length + 2) false (State.start text)

/-- The segments between matches, each match followed by the texts of its groups. -/
def segments (text : List Char) : Nat → List Found → List (Option (List Char))
  | offset, [] => [some (text.drop offset)]
  | offset, hit :: rest =>
    some ((text.drop offset).take (hit.start - offset)) :: hit.groups ++
      segments text (hit.start + hit.text.length) rest

/-- The segments between the matches, with what the groups captured between them. -/
def split (pattern : Pattern) (text : List Char) : List (Option (List Char)) :=
  segments text 0 (pattern.all text)

end Weave.Pattern
