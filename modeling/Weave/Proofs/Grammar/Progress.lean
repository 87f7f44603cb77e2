import Weave.Proofs.Grammar.Tandem

namespace Weave

/-!
# Reading an expression comes to an end

A grammar with a depth for every token reads the same as every deeper one, whatever stands behind
the end of the source: the same value with the same tokens left, at least one of them taken, or
they refuse for the same cause, and that is never the depth.
-/

/-- Two readings have the same outcome, and it is not that the depth is exhausted. -/
structure SettlesAlike (first second : Except ParseFault α) : Prop where
  same : first = second
  hasDepth : first ≠ .error .exhausted

namespace SettlesAlike

theorem ok (value : α) : SettlesAlike (.ok value) (.ok value) :=
  ⟨rfl, nofun⟩

theorem error (hasDepth : fault ≠ .exhausted) :
    SettlesAlike (.error fault : Except ParseFault α) (.error fault) :=
  ⟨rfl, fun isExhausted => hasDepth (Except.error.inj isExhausted)⟩

theorem bind (settles : SettlesAlike first second)
    (nextSettles : ∀ value, first = .ok value → SettlesAlike (firstNext value) (secondNext value)) :
    SettlesAlike (first >>= firstNext) (second >>= secondNext) := by
  obtain ⟨rfl, hasDepth⟩ := settles
  cases first with
  | error => exact error fun isExhausted => hasDepth (isExhausted ▸ rfl)
  | ok value => exact nextSettles value rfl

end SettlesAlike

/-- A string literal is read alike with two readers of what is nested in it. -/
def Token.ReadsAlike (firstParse secondParse : TextParser) (token : Token) :
    Prop :=
  token.kind = .string →
    SettlesAlike (stringLiteral firstParse token.lexeme) (stringLiteral secondParse token.lexeme)

namespace Tandem

/-- The same tokens twice, with others behind their end the second time.  If it matters how deep the
grammars are, the depth is never what they refuse for. -/
def extended (front : List Token) (deep : Prop) (ending : Token) (isEnd : ending.kind = .finish)
    (more : List Token) :
    Tandem where
  fits start other := other = start ∧ (start.kind = .string → start ∈ front)
  meets count tokens others :=
    ∃ left, left <:+ front ∧ left.length = count ∧ tokens = left ++ [ending] ∧
      others = left ++ ending :: more
  strict := True
  refuses fault other := other = fault ∧ (deep → fault ≠ .exhausted)
  head := by
    rintro _ _ _ ⟨_ | ⟨start, left⟩, isSuffix, rfl, rfl, rfl⟩
    · exact ⟨_, _, _, _, rfl, rfl, rfl, by simp [isEnd]⟩
    · exact ⟨_, _, _, _, rfl, rfl, rfl, fun _ => isSuffix.subset (.head left)⟩
  tail := by
    rintro _ _ _ _ _ ⟨_ | ⟨start, left⟩, isSuffix, rfl, isFirst, isSecond⟩ notEnd
    · exact absurd ((List.cons.inj isFirst).1 ▸ isEnd) notEnd
    · exact ⟨_, rfl, left, (List.suffix_cons start left).trans isSuffix, rfl,
        (List.cons.inj isFirst).2, (List.cons.inj isSecond).2⟩
  same fits _ := fits.1
  kind fits := by rw [fits.1]
  lexeme fits := by rw [fits.1]
  blames fits blame := ⟨by rw [fits.1], fun _ => by cases blame <;> exact nofun⟩
  noCases := ⟨rfl, nofun⟩
  recovers refuses := by rw [refuses.1]

end Tandem

/-- An expression is read within the tokens in front of the end: whatever stands behind it, and
however deep the grammar is, at least one of them is taken, or the expression is refused. -/
theorem Grammar.expression_alike {firstParse secondParse : TextParser}
    {front : List Token} {ending : Token} {deep : Prop}
    (readAlike : ∀ token ∈ front, token.kind = .string →
      stringLiteral firstParse token.lexeme = stringLiteral secondParse token.lexeme ∧
        (deep → stringLiteral firstParse token.lexeme ≠ .error .exhausted))
    (isEnd : ending.kind = .finish) {bound deeper : Nat} (enough : front.length < bound)
    (bounded : bound ≤ deeper) (more : List Token) :
    (∃ value left, left <:+ front ∧ left.length < front.length ∧
      (upTo firstParse bound).expression (front ++ [ending]) = .ok (value, left ++ [ending]) ∧
      (upTo secondParse deeper).expression (front ++ ending :: more) =
        .ok (value, left ++ ending :: more)) ∨
    ∃ fault, (deep → fault ≠ .exhausted) ∧
      (upTo firstParse bound).expression (front ++ [ending]) = .error fault ∧
      (upTo secondParse deeper).expression (front ++ ending :: more) = .error fault := by
  have agrees : (Tandem.extended front deep ending isEnd more).Agrees firstParse secondParse := by
    intro start _ fits isString
    obtain ⟨same, hasDepth⟩ := readAlike start (fits.2 isString) isString
    rw [← same]
    cases isRead : stringLiteral firstParse start.lexeme with
    | ok => exact .values fun _ => rfl
    | error =>
      exact .refused ⟨rfl, fun isDeep isExhausted => hasDepth isDeep (isExhausted ▸ isRead)⟩
  cases (agrees.upTo bounded).1 _ _ _ ⟨front, List.suffix_rfl, rfl, rfl, rfl⟩ enough with
  | @read _ _ _ _ _ firstReads secondReads same meets isFewer =>
    obtain rfl := same trivial
    obtain ⟨left, isSuffix, rfl, rfl, rfl⟩ := meets
    exact .inl ⟨_, left, isSuffix, isFewer, firstReads, secondReads⟩
  | refused firstRefuses secondRefuses refuses =>
    obtain ⟨rfl, hasDepth⟩ := refuses
    exact .inr ⟨_, hasDepth, firstRefuses, secondRefuses⟩

/-- Where the strings do not exhaust the depth, neither does the expression. -/
theorem Grammar.expression_extended {front : List Token} {ending : Token}
    (readAlike : ∀ token ∈ front, token.ReadsAlike firstParse secondParse)
    (isEnd : ending.kind = .finish) (enough : front.length < bound) (bounded : bound ≤ deeper)
    (more : List Token) : (∃ value left, left <:+ front ∧ left.length < front.length ∧
      (upTo firstParse bound).expression (front ++ [ending]) = .ok (value, left ++ [ending]) ∧
      (upTo secondParse deeper).expression (front ++ ending :: more) =
        .ok (value, left ++ ending :: more)) ∨
    ∃ fault, fault ≠ .exhausted ∧
      (upTo firstParse bound).expression (front ++ [ending]) = .error fault ∧
      (upTo secondParse deeper).expression (front ++ ending :: more) = .error fault := by
  have settled := fun token mem isString =>
    let settles := readAlike token mem isString
    And.intro settles.same fun (_ : True) => settles.hasDepth
  simpa using expression_alike settled isEnd enough bounded more

end Weave
