import Weave.Proofs.Token.Layout

namespace Weave

/-!
# Texts that stand elsewhere

A text that is scanned from another position on gives the same tokens and the same faults, each
moved to where it stands then.
-/

variable {pos : Position}

namespace Position

/-- The position counts, as all positions in a source do. -/
def Counts (position : Position) : Prop := 1 ≤ position.line ∧ 1 ≤ position.column

/-- Where something lies in a source, given its position in a text that stands in the source from
an origin on.  What stands nowhere in the text stands nowhere in the source. -/
def beyond (origin : Position) : Position → Position
  | ⟨0, column⟩ => ⟨0, column⟩
  | ⟨1, column⟩ => ⟨origin.line, origin.column + (column - 1)⟩
  | ⟨line + 2, column⟩ => ⟨origin.line + (line + 1), column⟩

theorem counts_start : start.Counts :=
  ⟨Nat.le_refl 1, Nat.le_refl 1⟩

theorem counts_behind (text : List Char) : (behind text).Counts :=
  ⟨Nat.le_add_right 1 _, Nat.le_add_right 1 _⟩

/-- Nothing stands in front of the beginning. -/
theorem eq_nil_of_behind (isStart : behind text = start) : text = [] := by
  rcases List.eq_nil_or_concat text with isNil | ⟨front, last, rfl⟩
  · exact isNil
  · rw [List.concat_eq_append, behind_append_singleton, next] at isStart
    split at isStart
    · have line := congrArg Position.line isStart
      simp [behind, start] at line
    · have column := congrArg Position.column isStart
      simp [behind, start] at column

theorem beyond_start (origin : Position) : origin.beyond start = origin := rfl

theorem Counts.next (counts : pos.Counts) (char : Char) : (pos.next char).Counts := by
  obtain ⟨hasLine, hasColumn⟩ := counts
  unfold Position.next Counts
  split <;> exact ⟨by dsimp only; omega, by dsimp only; omega⟩

theorem beyond_next (origin : Position) (counts : pos.Counts) (char : Char) :
    origin.beyond (pos.next char) = (origin.beyond pos).next char := by
  obtain ⟨line, column⟩ := pos
  obtain ⟨hasLine, hasColumn⟩ := counts
  simp only at hasLine hasColumn
  by_cases isLineEnd : char = '\n'
  · obtain _ | _ | line := line
    · omega
    · simp [next, isLineEnd, beyond]
    · simp [next, isLineEnd, beyond, Nat.add_assoc]
  · obtain _ | _ | line := line
    · omega
    · simp only [next, isLineEnd, if_false, beyond, mk.injEq, true_and]
      omega
    · simp [next, isLineEnd, beyond]

theorem Counts.advance (counts : pos.Counts) (text : List Char) :
    (pos.advance text).Counts := by
  induction text generalizing pos with
  | nil => exact counts
  | cons char _ ih => exact ih (counts.next char)

theorem beyond_advance (origin : Position) (counts : pos.Counts) (text : List Char) :
    origin.beyond (pos.advance text) = (origin.beyond pos).advance text := by
  induction text generalizing pos with
  | nil => rfl
  | cons char rest ih =>
    calc
      origin.beyond ((pos.next char).advance rest)
      _ = (origin.beyond (pos.next char)).advance rest := ih (counts.next char)
      _ = ((origin.beyond pos).next char).advance rest := by
        rw [beyond_next origin counts]

/-- The position behind a text is its position behind what stands in front of the text. -/
theorem behind_append (before text : List Char) :
    behind (before ++ text) = (behind before).beyond (behind text) := by
  have fromStart : start.advance text = behind text := advance_behind [] text
  rw [← advance_behind, ← fromStart, beyond_advance _ counts_start, beyond_start]

/-- Behind a line feed, every position is moved down. -/
theorem line_lt_beyond {origin pos : Position} (isBelow : 1 < origin.line)
    (counts : pos.Counts) :
    pos.line < (origin.beyond pos).line := by
  obtain ⟨line, column⟩ := pos
  obtain ⟨hasLine, hasColumn⟩ := counts
  simp only at hasLine
  obtain _ | _ | line := line
  · omega
  · exact isBelow
  · simp only [beyond]
    omega

end Position

/-- A token that stands elsewhere. -/
def Token.moved (move : Position → Position) (token : Token) : Token :=
  { token with position := move token.position }

/-- A token that stands nowhere. -/
def Token.placeless (token : Token) : Token := token.moved fun _ => .nowhere

@[simp] theorem Token.kind_placeless (token : Token) : token.placeless.kind = token.kind := rfl

@[simp] theorem Token.lexeme_placeless (token : Token) : token.placeless.lexeme = token.lexeme :=
  rfl

/-- A fault about something that stands elsewhere. -/
def ParseFault.moved (move : Position → Position) : ParseFault → ParseFault
  | .unterminatedComment position => .unterminatedComment (move position)
  | .unexpectedCharacter position => .unexpectedCharacter (move position)
  | .expected wanted found position => .expected wanted found (move position)
  | .trailingTokens position => .trailingTokens (move position)
  | .missingElse position => .missingElse (move position)
  | .notACase position => .notACase (move position)
  | .unexpectedToken kind position => .unexpectedToken kind (move position)
  | fault => fault

namespace Token

/-- A scan whose tokens, or whose fault, stand elsewhere. -/
def movedScan (move : Position → Position) :
    Except ParseFault (List Token) → Except ParseFault (List Token)
  | .ok tokens => .ok (tokens.map (moved move))
  | .error fault => .error (fault.moved move)

/-- Scanning does not depend on where a text stands. -/
theorem scanFrom_beyond (origin : Position) (fuel : Nat) (counts : pos.Counts)
    (text : List Char) :
    scanFrom fuel (origin.beyond pos) text =
      movedScan origin.beyond (scanFrom fuel pos text) := by
  induction fuel generalizing pos text with
  | zero => cases text <;> rfl
  | succ fuel ih =>
    cases text with
    | nil => rfl
    | cons first rest =>
      rw [scanFrom, scanFrom]
      cases cut : piece (first :: rest) with
      | error refusal => cases refusal <;> rfl
      | ok found =>
        obtain ⟨front, left⟩ := found
        cases front with
        | gap skipped =>
          have others := ih (counts.advance skipped) left
          rw [Position.beyond_advance origin counts] at others
          exact others
        | lexeme _ lexeme =>
          have others := ih (counts.advance lexeme) left
          rw [Position.beyond_advance origin counts] at others
          simp only [others]
          cases scanFrom fuel (pos.advance lexeme) left <;> rfl

theorem scanFrom_origin (origin : Position) (text : List Char) :
    scanFrom text.length origin text = movedScan origin.beyond (scan text) :=
  scanFrom_beyond origin text.length Position.counts_start text

end Token

end Weave
