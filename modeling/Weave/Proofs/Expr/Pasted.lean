import Weave.Proofs.Expr.Termination
import Weave.Proofs.Grammar.Moved
import Weave.Proofs.Grammar.Pasted

namespace Weave

open List

/-!
# Reading an expression as a part of another text

A text that can be read alone can be read behind the parameters of a lambda, where it stands
elsewhere: the lambda has its expression for a body, but for the positions.
-/

variable {source : List Char} {expr : Expr}

namespace Expr

/-- A source is read exactly if its tokens are derived. -/
theorem parse_eq_ok_iff : parse source = .ok expr ↔
      ∃ front ending, Token.scan source = .ok (front ++ [ending]) ∧ ending.kind = .finish ∧
        Derives parse none (.expr .whole) front expr ending := by
  rw [parse_eq, except_bind_eq_ok]
  constructor
  · rintro ⟨_, scanned, isRead⟩
    obtain ⟨front, ending, rfl, isEnd, noEnds⟩ := (Token.cuts_of_scan scanned).exists_ending
    exact ⟨front, ending, scanned, isEnd, .of_ofTokens isEnd noEnds isRead⟩
  · rintro ⟨_, _, scanned, isEnd, derives⟩
    exact ⟨_, scanned, derives.ofTokens isEnd⟩

/-- A source with the words of an expression is read as this expression. -/
theorem parse_of_words {tokens : List Token} {ending : Token}
    (derives : Derives parse none (.expr .whole) front expr ending) (isEnd : ending.kind = .finish)
    (scanned : Token.scan source = .ok tokens)
    (sameWords : tokens.map Token.placeless = (front ++ [ending]).map Token.placeless) :
    ∃ other, parse source = .ok other ∧ other.placeless = expr.placeless := by
  obtain ⟨words, last, rfl, isLast, -⟩ := (Token.cuts_of_scan scanned).exists_ending
  rw [map_append, map_append] at sameWords
  obtain ⟨sameFront, sameEnd⟩ := append_inj' sameWords rfl
  obtain ⟨other, derivesOther, same⟩ := derives.elsewhere isEnd sameFront (singleton_inj.mp sameEnd)
  exact ⟨other, parse_eq_ok_iff.mpr ⟨words, last, scanned, isLast, derivesOther⟩, same⟩

/-- A source that can be read can be read wherever it stands. -/
theorem derives_elsewhere (isRead : parse source = .ok expr) (origin : Position) :
    ∃ front ending moved,
      Token.scanAt origin source = .ok (front ++ [ending]) ∧ ending.kind = .finish ∧
        moved.placeless = expr.placeless ∧
        Derives parse none (.expr .whole) front moved ending := by
  obtain ⟨front, ending, scanned, isEnd, derives⟩ := parse_eq_ok_iff.mp isRead
  have moved := Token.scanFrom_origin origin source
  rw [scanned] at moved
  have sameWord (token : Token) : (token.moved origin.beyond).placeless = token.placeless := rfl
  obtain ⟨other, derivesThere, same⟩ :=
    @Derives.elsewhere _ _ (front.map (Token.moved origin.beyond)) _ (ending.moved origin.beyond) _
      derives isEnd (by simp [Function.comp_def, sameWord]) (sameWord ending)
  refine ⟨_, ending.moved origin.beyond, other, ?_, isEnd, same, derivesThere⟩
  rw [Token.scanAt, moved, Token.movedScan, map_append, map_singleton]

/-- A text whose tokens make up an expression is read as that expression. -/
theorem parse_of_makes {text : List Char} {expected : Expr}
    (makes : Token.Fronts (Token.Makes expected) text []) :
    ∃ expr, parse text = .ok expr ∧ expr.placeless = expected := by
  obtain ⟨tokens, isMade, scanned⟩ := makes .start
  rw [append_nil] at scanned
  obtain ⟨expr, viewed, derives⟩ := isMade.whole fun next (isEnd : next.kind = .finish) =>
    Token.endsUpTo_of_ends (by rw [isEnd]; rfl) 4
  exact ⟨expr, parse_eq_ok_iff.mpr ⟨tokens, _, scanned, rfl, (derives _ rfl).2⟩, viewed⟩

/-- The text of a lambda with plain parameters. -/
def lambdaText (names : List String) (body : List Char) : List Char :=
  '(' :: intercalate [',', ' '] (names.map String.toList) ++
    ([')', ' ', '-', '>', ' '] ++ body)

/-- What stands in front of the body of a lambda is scanned into its parameters and the arrow. -/
theorem fronts_binders {names : List String} (areWords : ∀ name ∈ names, Token.IsWord name.toList)
    (body : List Char) :
    Token.Fronts (Grammar.AreBinders names)
      (['('] ++ (intercalate [',', ' '] (names.map String.toList) ++
        ([')'] ++ ([' '] ++ (['-', '>'] ++ [' '])))))
      body := by
  have arrow :
      Token.Fronts (Token.AreOne .arrow ['-', '>']) ([' '] ++ (['-', '>'] ++ [' '])) body :=
    Token.Fronts.arrow.before_blank.behind_blank
  have close (rest : List Char) : Token.Fronts (Token.AreOne .closeParen [')']) [')'] rest :=
    .delimiter (by simp)
  have opening (rest : List Char) : Token.Fronts (Token.AreOne .openParen ['(']) ['('] rest :=
    .delimiter (by simp)
  have scannedNames :
      Token.Fronts (Token.Separated (fun name => Token.AreOne .word name.toList) names)
        (intercalate [',', ' '] (names.map String.toList))
        ([')'] ++ ([' '] ++ (['-', '>'] ++ [' '])) ++ body) := by
    refine .separated fun name mem behind stops => .word (areWords name mem) ?_
    rcases stops with rfl | ⟨more, rfl⟩ <;> rintro _ ⟨⟩ <;> decide
  refine ((opening _).append (scannedNames.append ((close _).append arrow))).mono ?_
  rintro _ ⟨_, _, ⟨_, rfl⟩, ⟨inner, _, separated, ⟨_, _, ⟨_, rfl⟩, ⟨_, rfl⟩, rfl⟩, rfl⟩, rfl⟩
  exact ⟨_, inner, _, _, rfl, rfl, separated, rfl, rfl⟩

/-- Behind plain parameters, a text that can be read alone is read as the body of a lambda. -/
theorem parse_lambdaText {names : List String} (areWords : ∀ name ∈ names, Token.IsWord name.toList)
    (isRead : parse body = .ok expr) :
    ∃ inner, parse (lambdaText names body) = .ok (.lambda (names.map Parameter.plain) inner) ∧
      inner.placeless = expr.placeless := by
  obtain ⟨binders, areBinders, scanned⟩ := fronts_binders areWords body .start
  obtain ⟨front, ending, inner, bodyScanned, isEnd, same, isBody⟩ :=
    derives_elsewhere isRead
      (Position.start.advance (['('] ++ (intercalate [',', ' '] (names.map String.toList) ++
          ([')'] ++ ([' '] ++ (['-', '>'] ++ [' ']))))))
  rw [bodyScanned] at scanned
  have isText :
      ['('] ++ (intercalate [',', ' '] (names.map String.toList) ++
        ([')'] ++ ([' '] ++ (['-', '>'] ++ [' '])))) ++ body = lambdaText names body := by
    simp [lambdaText]
  rw [isText] at scanned
  have scannedWhole :
      Token.scan (lambdaText names body) = .ok (binders ++ front ++ [ending]) := by
    rw [append_assoc]
    exact scanned
  exact ⟨inner, parse_eq_ok_iff.mpr ⟨_, _, scannedWhole, isEnd, areBinders.derives isEnd isBody⟩,
    same⟩

end Expr

end Weave
