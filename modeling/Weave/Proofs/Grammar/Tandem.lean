import Weave.Proofs.Grammar.Derivation
import Weave.Proofs.Reader.Tandem

namespace Weave

/-!
# The grammar in tandem

Every reader of the grammar runs in tandem with the same reader of a grammar that is at least as
deep, as long as there is a depth for every token.  An expression and an operand take at least one
token, and what is nested in them starts behind a token that was taken.  One lemma for every reader
follows its definition; the induction over the depth of the grammar comes last.
-/

theorem operatorsAt_eq_none {token other : Token} (same : other.kind = token.kind)
    (ends : operatorsAt rank token = none) :
    operatorsAt rank other = none := by
  have isSome : (operatorsAt rank other).isSome = (operatorsAt rank token).isSome := by
    unfold operatorsAt multiplicativeOperators additiveOperators comparisonOperators
      defaultOperators
    split <;> (dsimp only; rw [same])
    split <;> rfl
  rwa [ends, Option.isSome_none, Option.isSome_eq_false_iff, Option.isNone_iff_eq_none] at isSome

theorem operatorsAt_of_finish {token : Token} (isEnd : token.kind = .finish) (rank : Nat) :
    operatorsAt rank token = none := by
  rcases rank with _ | _ | _ | rank <;>
    simp [operatorsAt, multiplicativeOperators, additiveOperators, comparisonOperators,
      defaultOperators, isEnd]

namespace Tandem

/-- Two string literals: both are expressions, or they are refused for causes that stand for each
other. -/
inductive Results (tandem : Tandem) : Except ParseFault Expr → Except ParseFault Expr → Prop
  | values (same : tandem.strict → other = value) : Results tandem (.ok value) (.ok other)
  | refused (refuses : tandem.refuses fault other) : Results tandem (.error fault) (.error other)

/-- Strings that fit are read or refused alike. -/
def Agrees (tandem : Tandem) (firstParse secondParse : TextParser) : Prop :=
  ∀ {start other}, tandem.fits start other → start.kind = .string →
    tandem.Results (stringLiteral firstParse start.lexeme) (stringLiteral secondParse start.lexeme)

/-- A pass over two grammars, with fuel for every token, in which nested expressions are read in
tandem. -/
structure Pass (tandem : Tandem) (bound firstFuel secondFuel : Nat)
    (firstParse secondParse : TextParser) (first second : Grammar) :
    Prop where
  agrees : tandem.Agrees firstParse secondParse
  expression : tandem.Reads bound 1 first.expression second.expression
  operand : tandem.Reads bound 1 first.operand second.operand
  enough : bound ≤ firstFuel
  bounded : firstFuel ≤ secondFuel

variable {tandem : Tandem} {bound firstFuel secondFuel fewer : Nat}
  {firstParse secondParse : TextParser} {first second : Grammar}
  {start other : Token} {left left' : Expr}

theorem Reads.expect_bind {taken : Nat} {kind : Token.Kind}
    {firstNext secondNext : Token → Reader α}
    (notEnd : kind ≠ .finish) (next : ∀ value other, (tandem.strict → other = value) →
      tandem.Reads bound taken (firstNext value) (secondNext other)) :
    tandem.Reads bound taken (Reader.expect kind >>= firstNext)
      (Reader.expect kind >>= secondNext) :=
  (Reads.expect notEnd).idle.bind next

theorem selector : tandem.Reads bound 1 Grammar.selector Grammar.selector := by
  refine .peek fun start other fits => ?_
  rw [tandem.kind fits]
  split
  · exact .take fits ‹_› (by decide) (.expect_bind (by decide) fun _ _ _ => .done (by grind))
  · exact .take fits ‹_› (by decide) (.expect_bind (by decide) fun _ _ _ => .done (by grind))
  · exact .of_reads ((Reads.expect (by decide)).map (by grind))

theorem typeSpec (enough : bound ≤ firstFuel) (bounded : firstFuel ≤ secondFuel) :
    tandem.Reads bound 1 (TypeSpec.reader firstFuel) (TypeSpec.reader secondFuel) := by
  refine loop_induction enough bounded (fun _ _ => .of_zero) ?_
  intro left firstLeft secondLeft _ leftEnough leftBounded generic
  exact (Reads.expect (by decide)).bind_less fun _ _ _ =>
    .accept (by decide) ((itemsThen (by decide) generic leftEnough leftBounded).idle.map (by grind))
      (.done (by grind))

namespace Pass

variable (pass : tandem.Pass bound firstFuel secondFuel firstParse secondParse first second)

include pass

theorem weaken (isFewer : fewer ≤ bound) :
    tandem.Pass fewer firstFuel secondFuel firstParse secondParse first second :=
  ⟨pass.agrees, pass.expression.weaken isFewer, pass.operand.weaken isFewer,
    Nat.le_trans isFewer pass.enough, pass.bounded⟩

/-! ## Primary expressions -/

theorem parameters :
    tandem.Reads bound 0 (first.parameters firstFuel) (second.parameters secondFuel) := by
  refine optional (by decide) (itemsThen (by decide) ?_ pass.enough pass.bounded)
  exact (Reads.expect (by decide)).andThen fun _ _ _ =>
    .accept (by decide) (pass.expression.idle.map (by grind)) (.done (by grind))

theorem lambda : tandem.Reads (bound + 1) 1 (first.lambda firstFuel) (second.lambda secondFuel) :=
  (Reads.expect (by decide)).bind_less fun _ _ _ => pass.parameters.bind fun _ _ _ =>
    .expect_bind (by decide) fun _ _ _ => pass.expression.idle.map (by grind)

theorem enclosedLambda :
    tandem.Reads (bound + 1) 1 (first.enclosedLambda firstFuel)
      (second.enclosedLambda secondFuel) :=
  (Reads.expect (by decide)).bind_less fun _ _ _ => .expect_bind (by decide) fun _ _ _ =>
    pass.parameters.bind fun _ _ _ => .expect_bind (by decide) fun _ _ _ =>
      pass.expression.idle.bind fun _ _ _ => .expect_bind (by decide) fun _ _ _ =>
        .done (by grind)

theorem enclosed (fits : tandem.fits start other) (isOpen : start.kind = .openParen) :
    tandem.ReadsFrom start other (bound + 1) 1 first.enclosed second.enclosed :=
  .take_less fits isOpen (by decide)
    (pass.expression.idle.bind fun _ _ _ => .expect_bind (by decide) fun _ _ _ => .done (by grind))

theorem parenthesis (fits : tandem.fits start other) (isOpen : start.kind = .openParen) :
    tandem.ReadsFrom start other (bound + 1) 1 (first.parenthesis firstFuel)
      (second.parenthesis secondFuel) :=
  .attempt_bind (.of_reads pass.lambda) (fun _ _ same => .done same)
    (.attempt_bind (.of_reads pass.enclosedLambda) (fun _ _ same => .done same)
      (pass.enclosed fits isOpen))

theorem expressions (notEnd : close ≠ .finish) : tandem.Reads bound 0
      (Reader.optional close (Reader.itemsUntil close first.expression firstFuel))
      (Reader.optional close (Reader.itemsUntil close second.expression secondFuel)) :=
  optional notEnd (itemsUntil notEnd pass.expression pass.enough pass.bounded)

theorem string (fits : tandem.fits start other) (isString : start.kind = .string) :
    tandem.ReadsFrom start other (bound + 1) 1 (Grammar.string firstParse)
      (Grammar.string secondParse) := by
  refine .take_less fits isString (by decide) ?_
  rw [tandem.lexeme fits]
  have results := pass.agrees fits isString
  generalize stringLiteral firstParse start.lexeme = found,
    stringLiteral secondParse start.lexeme = otherFound at results ⊢
  cases results with
  | values same => exact Reads.done same
  | refused refuses => exact Reads.refuse refuses

theorem key : tandem.Reads (bound + 1) 1 (first.key firstParse) (second.key secondParse) := by
  refine .peek fun start other fits => ?_
  rw [tandem.kind fits]
  split
  · exact pass.string fits ‹_›
  · exact pass.enclosed fits ‹_›
  · exact .of_reads ((Reads.expect (by decide)).map (by grind))

theorem object : tandem.Reads (bound + 1) 1 (first.object firstParse firstFuel)
      (second.object secondParse secondFuel) := by
  have field : tandem.Reads (bound + 1) 1 (first.field firstParse) (second.field secondParse) :=
    pass.key.bind_less fun _ _ _ => .expect_bind (by decide) fun _ _ _ =>
      pass.expression.idle.map (by grind)
  exact (Reads.expect (by decide)).bind_less fun _ _ _ => (optional (by decide)
    (itemsUntil (by decide) (field.weaken (Nat.le_succ bound)) pass.enough pass.bounded)).map
      (by grind)

theorem primary : tandem.Reads (bound + 1) 1 (first.primary firstParse firstFuel)
      (second.primary secondParse secondFuel) := by
  refine .peek fun start other fits => ?_
  have same := tandem.same fits
  have blamed := tandem.blames fits .unexpected
  rw [Blame.fault, Blame.fault] at blamed
  rw [tandem.kind fits] at *
  split
  · exact .of_reads pass.object
  · exact .of_reads ((Reads.expect (by decide)).bind_less fun _ _ _ =>
      (pass.expressions (by decide)).map (by grind))
  · exact pass.string fits ‹_›
  · exact .take fits ‹_› (by decide) (.done (by grind))
  · exact .take fits ‹_› (by decide) (.done (by grind))
  · exact .take fits ‹_› (by decide) (.done (by grind))
  · exact .take fits ‹_› (by decide) (.done (by grind))
  · exact .take fits ‹_› (by decide) (.done (by grind))
  · exact pass.parenthesis fits ‹_›
  · exact .of_reads (.refuse blamed)

/-! ## Behind primary expressions -/

theorem access? (sameLeft : tandem.strict → left' = left) :
    tandem.ReadsIfAny bound (first.access? firstFuel left) (second.access? secondFuel left') := by
  intro firstNext secondNext found ended
  rw [Grammar.access?, Grammar.access?, bind_assoc, bind_assoc]
  refine .peek fun start other fits => ?_
  rw [tandem.kind fits]
  split <;> simp only [bind_assoc, pure_bind]
  · exact .idle
      (.take_less fits ‹_› (by decide) (selector.idle.bind fun _ _ _ => found _ _ (by grind)))
  · exact .idle
      (.take_less fits ‹_› (by decide) (.expect_bind (by decide) fun _ _ _ => found _ _ (by grind)))
  · rw [Grammar.arguments, Grammar.arguments, bind_assoc, bind_assoc]
    exact .of_reads ((Reads.expect (by decide)).bind_less fun _ _ _ =>
      (pass.expressions (by decide)).bind fun _ _ _ => found _ _ (by grind)).idle
  · exact .idle (.take_less fits ‹_› (by decide)
      (pass.expression.idle.bind fun _ _ _ => .expect_bind (by decide) fun _ _ _ =>
        found _ _ (by grind)))
  · exact .of_reads ended

/-! ## Matches -/

theorem matchPattern : tandem.Reads bound 0 first.matchPattern second.matchPattern := by
  have guarded {binding binding' : Option String} {matcher matcher' : Option Expr}
      (sameBinding : tandem.strict → binding' = binding)
      (sameMatcher : tandem.strict → matcher' = matcher) :
      tandem.Reads bound 0
        (do
          if (← Reader.peek).isWord "when" then
            let _ ← Reader.take
            return ⟨binding, matcher, some (← first.expression)⟩
          else
            return ⟨binding, matcher, none⟩)
        (do
          if (← Reader.peek).isWord "when" then
            let _ ← Reader.take
            return ⟨binding', matcher', some (← second.expression)⟩
          else
            return (⟨binding', matcher', none⟩ : MatchPattern Expr)) := by
    refine .peek fun start other fits => ?_
    rw [tandem.isWord fits]
    split
    · exact .idle
        (.take fits (Token.isWord_iff.mp ‹_›).1 (by decide) (pass.expression.idle.map (by grind)))
    · exact .of_reads (.done (by grind))
  refine .peek fun start other fits => ?_
  rw [tandem.isWord fits]
  split
  · exact .idle (.take fits (Token.isWord_iff.mp ‹_›).1 (by decide)
      (.expect_bind (by decide) fun _ _ _ => guarded (by grind) (by grind)))
  · exact .of_reads (pass.expression.idle.bind fun _ _ _ => guarded (by grind) (by grind))

theorem matchCase : tandem.Reads (bound + 1) 1 first.matchCase second.matchCase := by
  refine .peek fun start other fits => ?_
  rw [tandem.isWord fits, tandem.isWord fits]
  split
  · exact .take_less fits (Token.isWord_iff.mp ‹_›).1 (by decide)
      (pass.matchPattern.bind fun _ _ _ =>
        .expect_bind (by decide) fun _ _ _ => pass.expression.idle.map (by grind))
  · split
    · exact .take_less fits (Token.isWord_iff.mp ‹_›).1 (by decide)
        (.expect_bind (by decide) fun _ _ _ => pass.expression.idle.map (by grind))
    · exact .refuse .notACase fits

/-- Whether there are cases at all is the same for both. -/
theorem matchCases (enough : bound ≤ firstLeft) (bounded : firstLeft ≤ secondLeft) :
    ∀ firstNext secondNext : List (MatchCase Expr) → Reader α,
      tandem.Reads bound 0 (firstNext []) (secondNext []) →
      (∀ case case' cases cases', (tandem.strict → case' :: cases' = case :: cases) →
        tandem.Reads bound 0 (firstNext (case :: cases)) (secondNext (case' :: cases'))) →
      tandem.Reads bound 0 (first.matchCases firstLeft >>= firstNext)
        (second.matchCases secondLeft >>= secondNext) := by
  refine loop_induction enough bounded (fun _ _ _ _ _ _ => .of_zero) ?_
  intro left firstLeft secondLeft isLess _ _ others firstNext secondNext none some
  rw [Grammar.matchCases, Grammar.matchCases, bind_assoc, bind_assoc]
  refine .accept (by decide) (by simpa using none) ?_
  simp only [Bool.false_eq_true, if_false, bind_assoc]
  refine .idle ((pass.weaken (Nat.le_of_lt isLess)).matchCase.bind_less fun case case' same => ?_)
  have rest := others (firstNext <| case :: ·) (secondNext <| case' :: ·)
    ((some _ _ _ _ (by grind)).weaken (Nat.le_succ left))
    fun _ _ _ _ _ => (some _ _ _ _ (by grind)).weaken (Nat.le_succ left)
  exact .accept (by decide) rest rest

/-! ## Words behind an expression -/

theorem plainOperand :
    tandem.Reads bound 0 (Grammar.wordSuffix?.plainOperand first firstParse firstFuel)
      (Grammar.wordSuffix?.plainOperand second secondParse secondFuel) := by
  have suffixes {firstLeft secondLeft : Nat} (enough : bound ≤ firstLeft)
      (bounded : firstLeft ≤ secondLeft) :
      ∀ left left', (tandem.strict → left' = left) → tandem.Reads bound 0
        (Grammar.wordSuffix?.plainSuffixes first firstFuel firstLeft left)
        (Grammar.wordSuffix?.plainSuffixes second secondFuel secondLeft left') := by
    refine loop_induction enough bounded (fun _ _ _ _ _ => .of_zero) ?_
    intro rest firstLeft secondLeft isLess _ _ longer left left' same
    exact .ifAny ((pass.weaken (Nat.le_of_lt isLess)).access? same) longer (.done same)
  exact (pass.primary.idle.weaken (Nat.le_succ bound)).bind (suffixes pass.enough pass.bounded)

theorem wordSuffix? (sameLeft : tandem.strict → left' = left) :
    tandem.ReadsIfAny bound (first.wordSuffix? firstParse firstFuel left)
      (second.wordSuffix? secondParse secondFuel left') := by
  intro firstNext secondNext found ended
  rw [Grammar.wordSuffix?, Grammar.wordSuffix?, bind_assoc, bind_assoc]
  refine .peek fun start other fits => ?_
  rw [tandem.kind fits, tandem.lexeme fits]
  by_cases isWord : start.kind = .word
  · simp only [isWord, bne_self_eq_false, Bool.false_eq_true, if_false]
    split
    · -- a coercion, whose options start with a brace if there are any
      simp only [bind_assoc]
      refine .idle (.take_less fits isWord (by decide)
        ((typeSpec pass.enough pass.bounded).idle.bind fun _ _ _ => .peek fun next other fits =>
          ?_))
      rw [tandem.kind fits]
      split <;> simp only [bind_assoc, pure_bind]
      · exact .of_reads (pass.expression.idle.bind fun _ _ _ => found _ _ (by grind))
      · exact .of_reads (found _ _ (by grind))
    · split
      · simp only [bind_assoc]
        refine .idle (.take_less fits isWord (by decide) (.expect_bind (by decide) fun _ _ _ =>
          pass.matchCases pass.enough pass.bounded _ _ ?_ fun _ _ _ _ _ => ?_))
        · exact .refuse tandem.noCases
        · simpa using found _ _ (by grind)
      · split
        · exact .of_reads ended
        · simp only [bind_assoc]
          refine .idle (.take_less fits isWord (by decide) ?_)
          split <;> simp only [bind_assoc, pure_bind]
          · exact pass.plainOperand.bind fun _ _ _ => found _ _ (by grind)
          · exact pass.operand.idle.bind fun _ _ _ => found _ _ (by grind)
  · simpa [isWord] using ReadsFrom.of_reads ended

theorem operandLayer : tandem.Reads (bound + 1) 1 (first.operandLayer firstParse firstFuel)
      (second.operandLayer secondParse secondFuel) := by
  have suffixes {firstLeft secondLeft : Nat} (enough : bound ≤ firstLeft)
      (bounded : firstLeft ≤ secondLeft) :
      ∀ left left', (tandem.strict → left' = left) →
        tandem.Reads bound 0 (first.suffixes firstParse firstFuel firstLeft left)
        (second.suffixes secondParse secondFuel secondLeft left') := by
    refine loop_induction enough bounded (fun _ _ _ _ _ => .of_zero) ?_
    intro rest firstLeft secondLeft isLess _ _ longer left left' same
    have fewer := pass.weaken (Nat.le_of_lt isLess)
    exact .ifAny (fewer.access? same) longer (.ifAny (fewer.wordSuffix? same) longer (.done same))
  exact pass.primary.bind_less (suffixes pass.enough pass.bounded)

/-! ## Operators -/

theorem chainFrom (rank : Nat) (item : tandem.Reads bound 1 firstItem secondItem) :
    ∀ left left', (tandem.strict → left' = left) → tandem.Reads bound 0
      (Weave.chainFrom (operatorsAt rank) firstItem firstFuel left)
      (Weave.chainFrom (operatorsAt rank) secondItem secondFuel left') := by
  refine loop_induction pass.enough pass.bounded (fun _ _ _ _ _ => .of_zero) ?_
  intro rest firstLeft secondLeft isLess _ _ longer left left' sameLeft
  refine .peek fun start other fits => ?_
  have sameToken := tandem.same fits
  cases found : operatorsAt rank start with
  | none =>
    rw [operatorsAt_eq_none (tandem.kind fits) found]
    exact .of_reads (.done (by grind))
  | some =>
    have notEnd : start.kind ≠ .finish := fun isEnd => by
      simp [operatorsAt_of_finish isEnd] at found
    cases isFound : operatorsAt rank other with
    | none => cases found.symm.trans (operatorsAt_eq_none (tandem.kind fits).symm isFound)
    | some =>
      exact .idle (.take_less fits rfl notEnd
        ((item.weaken (Nat.le_of_lt isLess)).idle.bind fun _ _ _ => longer _ _ (by grind)))

theorem layer (rank : Nat) : tandem.Reads (bound + 1) 1 (first.layer firstParse firstFuel rank)
      (second.layer secondParse secondFuel rank) := by
  induction rank with
  | zero => exact pass.operandLayer
  | succ rank item =>
    exact item.bind_less (pass.chainFrom rank (item.weaken (Nat.le_succ bound)))

theorem expressionLayer : tandem.Reads (bound + 1) 1 (first.expressionLayer firstParse firstFuel)
      (second.expressionLayer secondParse secondFuel) := by
  refine .peek fun start other fits => ?_
  rw [tandem.isWord fits]
  split
  · refine .take_less fits (Token.isWord_iff.mp ‹_›).1 (by decide)
      (.expect_bind (by decide) fun _ _ _ => pass.expression.idle.bind fun _ _ _ =>
        .expect_bind (by decide) fun _ _ _ => pass.expression.idle.bind fun _ _ _ =>
          .peek fun start other fits => ?_)
    rw [tandem.isWord fits]
    split
    · exact .idle
        (.take fits (Token.isWord_iff.mp ‹_›).1 (by decide) (pass.expression.idle.map (by grind)))
    · exact .refuse .missingElse fits
  · exact .of_reads (pass.layer 4)

end Pass

/-- A grammar with a depth for every token runs in tandem with every grammar that is at least as
deep. -/
theorem Agrees.upTo (agrees : tandem.Agrees firstParse secondParse) (bounded : bound ≤ deeper) :
    tandem.Reads bound 1 (Grammar.upTo firstParse bound).expression
        (Grammar.upTo secondParse deeper).expression ∧
      tandem.Reads bound 1 (Grammar.upTo firstParse bound).operand
        (Grammar.upTo secondParse deeper).operand := by
  induction bound generalizing deeper with
  | zero => exact ⟨.of_zero, .of_zero⟩
  | succ bound ih =>
    rcases deeper with _ | others
    · omega
    have pass : tandem.Pass bound (bound + 1) (others + 1) firstParse secondParse
        (Grammar.upTo firstParse bound) (Grammar.upTo secondParse others) :=
      ⟨agrees, (ih (by omega)).1, (ih (by omega)).2, Nat.le_succ bound, bounded⟩
    exact ⟨pass.expressionLayer, pass.operandLayer⟩

end Tandem

end Weave
