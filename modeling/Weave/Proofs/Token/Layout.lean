import Weave.Proofs.Token.Pieces

namespace Weave

open List

/-!
# Where tokens stand

The lexemes of a scanned source stand in it in order, and nothing but blanks and comments stands
between them.  A position counts the line feeds in front of it and the characters behind the last
of them, although scanning never looks back.
-/

variable {source lexeme : List Char} {start middle : Nat} {tokens : List Token} {kind : Kind}

namespace Position

/-- The position behind a text that a source starts with. -/
def behind (text : List Char) : Position where
  line := 1 + text.count '\n'
  column := 1 + (text.reverse.takeWhile (· ≠ '\n')).length

theorem behind_append_singleton (text : List Char) (char : Char) :
    behind (text ++ [char]) = (behind text).next char := by
  by_cases isLineEnd : char = '\n'
  · simp [behind, next, isLineEnd, Nat.add_assoc]
  · simp [behind, next, isLineEnd, Nat.add_comm]

/-- Character by character, a position is moved to where counting puts it. -/
theorem advance_behind (before text : List Char) :
    (behind before).advance text = behind (before ++ text) := by
  induction text generalizing before with
  | nil => simp [advance]
  | cons char _ ih =>
    have moved := ih (before ++ [char])
    rw [behind_append_singleton, append_assoc] at moved
    exact moved

end Position

/-- The characters of a source from an offset up to another. -/
def slice (source : List Char) (start stop : Nat) : List Char := (source.take stop).drop start

theorem slice_self (source : List Char) (offset : Nat) : slice source offset offset = [] := by
  simp [slice]

theorem slice_append (before middle rest : List Char) :
    slice (before ++ (middle ++ rest)) before.length (before.length + middle.length) = middle := by
  simp [slice, take_append, take_of_length_le]

/-- Two slices of which the second starts where the first stops are one slice. -/
theorem slice_append_slice (inOrder : start ≤ middle) (upToStop : middle ≤ stop) :
    slice source start middle ++ slice source middle stop = slice source start stop := by
  obtain ⟨width, rfl⟩ := Nat.exists_eq_add_of_le inOrder
  have first : slice source start (start + width) = (slice source start stop).take width := by
    rw [slice, slice, take_drop, take_take, Nat.min_eq_left upToStop]
  have second : slice source (start + width) stop = (slice source start stop).drop width := by
    rw [slice, slice, drop_drop]
  rw [first, second, take_append_drop]

namespace Token

/-- The text is made of gaps in front of the rest of a source. -/
inductive IsGap : List Char → List Char → Prop
  | nil : IsGap [] rest
  | cons {first others rest : List Char} (isGap : IsGapPiece first (others ++ rest))
      (areGaps : IsGap others rest) :
      IsGap (first ++ others) rest

/-- What a token is written as; some kinds say it all. -/
def spelling (token : Token) : List Char :=
  match token.kind with
  | .defaultWord => "default".toList
  | .nullWord => "null".toList
  | _ => (token.text?.getD "").toList

/-- A token stands in a source between two offsets. -/
structure StandsAt (source : List Char) (token : Token) (start stop : Nat) : Prop where
  notEmpty : start < stop
  inside : stop ≤ source.length
  spelled : slice source start stop = token.spelling
  isLexeme : token.kind ≠ .finish
  line : token.position.line = 1 + (source.take start).count '\n'
  column :
    token.position.column = 1 + ((source.take start).reverse.takeWhile (· ≠ '\n')).length

/-- Only gaps stand in a source between two offsets. -/
structure IsGapAt (source : List Char) (start stop : Nat) : Prop where
  inOrder : start ≤ stop
  isGap : IsGap (slice source start stop) (source.drop stop)

/-- From an offset on, the tokens stand in the source one after the other, up to its end. -/
inductive Laid (source : List Char) : Nat → List Token → Prop
  | finish (gap : IsGapAt source offset source.length) :
      Laid source offset [⟨.finish, "", .behind source⟩]
  | lexeme {start : Nat} {tokens : List Token}
      (gap : IsGapAt source offset start) (stands : token.StandsAt source start stop)
      (others : Laid source stop tokens) :
      Laid source offset (token :: tokens)

/-! ## Gaps in front -/

namespace IsGapAt

variable {source : List Char} {start middle stop : Nat}

theorem empty (source : List Char) (offset : Nat) : IsGapAt source offset offset := by
  refine ⟨Nat.le_refl offset, ?_⟩
  rw [slice_self]
  exact .nil

/-- A gap in front of gaps makes them longer. -/
theorem prepend (inOrder : start ≤ middle)
    (isGap : IsGapPiece (slice source start middle) (source.drop middle))
    (others : IsGapAt source middle stop) :
    IsGapAt source start stop := by
  have restOfSource : slice source middle stop ++ source.drop stop = source.drop middle := by
    have whole : (source.take stop ++ source.drop stop).drop middle = source.drop middle := by
      rw [take_append_drop]
    rw [← whole, slice]
    by_cases inside : middle ≤ (source.take stop).length
    · rw [drop_append_of_le_length inside]
    · have beyond : source.length ≤ middle := by
        rw [length_take] at inside
        have := others.inOrder
        omega
      have noneLeft := drop_of_length_le (beyond.trans others.inOrder)
      rw [noneLeft, append_nil, append_nil]
  refine ⟨inOrder.trans others.inOrder, ?_⟩
  rw [← slice_append_slice inOrder others.inOrder]
  exact .cons (restOfSource ▸ isGap) others.isGap

end IsGapAt

theorem Laid.prepend (inOrder : start ≤ middle)
    (isGap : IsGapPiece (slice source start middle) (source.drop middle))
    (laid : Laid source middle tokens) :
    Laid source start tokens := by
  cases laid with
  | finish gap => exact .finish (gap.prepend inOrder isGap)
  | lexeme gap stands others => exact .lexeme (gap.prepend inOrder isGap) stands others

/-! ## Scanning -/

theorem spelling_of_spells (spells : kind.Spells lexeme) (pos : Position) :
    (Token.mk kind (String.ofList lexeme) pos).spelling = lexeme := by
  cases kind <;> simp_all [Kind.Spells, spelling, text?]

/-- A lexeme behind a text that the source starts with stands there. -/
theorem standsAt_of_isLexeme {before : List Char} (isLexeme : IsLexeme kind lexeme rest) :
    StandsAt (before ++ (lexeme ++ rest)) ⟨kind, String.ofList lexeme, .behind before⟩
      before.length (before.length + lexeme.length) where
  notEmpty := by
    have := length_pos_of_ne_nil isLexeme.ne_nil
    omega
  inside := by simp
  spelled := by rw [slice_append, spelling_of_spells (isLexeme.isScanned .start).1]
  isLexeme := by
    rintro rfl
    exact (isLexeme.isScanned .start).1
  line := by simp [Position.behind]
  column := by simp [Position.behind]

/-- Cutting a source from behind a text that it starts with lays its tokens out from there. -/
theorem laid_of_cuts {pos : Position} {text : List Char} (cuts : Cuts pos text tokens)
    (before : List Char) (isBehind : pos = .behind before) :
    Laid (before ++ text) before.length tokens := by
  induction cuts generalizing before with
  | finish =>
    rw [isBehind, append_nil]
    exact .finish (.empty before before.length)
  | @gap pos skipped _ _ isGap _ ih =>
    have moved : pos.advance skipped = .behind (before ++ skipped) := by
      rw [isBehind, Position.advance_behind]
    have laid := ih (before ++ skipped) moved
    rw [append_assoc, length_append] at laid
    refine laid.prepend (Nat.le_add_right _ _) ?_
    rw [slice_append]
    simpa [← append_assoc, drop_left'] using isGap
  | @lexeme pos _ lexeme _ _ isLexeme _ ih =>
    have moved : pos.advance lexeme = .behind (before ++ lexeme) := by
      rw [isBehind, Position.advance_behind]
    have laid := ih (before ++ lexeme) moved
    rw [append_assoc, length_append] at laid
    rw [isBehind]
    exact .lexeme (.empty _ _) (standsAt_of_isLexeme isLexeme) laid

/-- A scan loses nothing: its tokens stand in the source one after the other, each where it says,
with only blanks and comments between them. -/
theorem laid_of_scan {source : List Char} {tokens : List Token}
    (scanned : scan source = .ok tokens) :
    Laid source 0 tokens :=
  laid_of_cuts (cuts_of_scan scanned) [] rfl

/-- Line feeds stand in a comment and in a string, and the source ends in a comment. -/
theorem laid_of_scan_commented : scan "(/*\n*/\"\n\" null//".toList =
        .ok [⟨.openParen, "(", ⟨1, 1⟩⟩, ⟨.string, "\"\n\"", ⟨2, 3⟩⟩, ⟨.nullWord, "null", ⟨3, 3⟩⟩,
          ⟨.finish, "", ⟨3, 9⟩⟩] ∧
      Laid "(/*\n*/\"\n\" null//".toList 0
        [⟨.openParen, "(", ⟨1, 1⟩⟩, ⟨.string, "\"\n\"", ⟨2, 3⟩⟩, ⟨.nullWord, "null", ⟨3, 3⟩⟩,
          ⟨.finish, "", ⟨3, 9⟩⟩] :=
  ⟨by decide, laid_of_scan (by decide)⟩

end Token

end Weave
