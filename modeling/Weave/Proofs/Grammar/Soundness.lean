import Weave.Proofs.Grammar.Derivation
import Weave.Proofs.Token.Brackets

namespace Weave

open List Filter Grammar Reader Token

/-!
# What the grammar derives is read

A grammar that is deep enough reads every derivation.  Loops are followed as far as the derivation
goes: an operand or a chain that has been derived in part is read up to the loop that goes on behind
it.
-/

variable {parse : TextParser} {grammar : Grammar} {bound fuel : Nat}
  {tokens rest inner : List Token} {token next opening closing : Token} {value left : Expr}

/-! ## What ends an operand -/

theorem Grammar.access?_of_endsPlain (ends : (ahead rest).endsPlain) :
    grammar.access? bound left rest = .ok (none, rest) := by
  simp only [endsPlain, Bool.not_eq_true', Bool.or_eq_false_iff, beq_eq_false_iff_ne] at ends
  simp [access?, peek_eq, ends]

theorem Grammar.wordSuffix?_of_endsOperand (ends : (ahead rest).endsOperand) :
    grammar.wordSuffix? parse bound left rest = .ok (none, rest) := by
  simp only [Token.endsOperand, Bool.and_eq_true, Bool.or_eq_true, bne_iff_ne] at ends
  by_cases isWord : (ahead rest).kind = .word
  · obtain ⟨notMatch, endsHere⟩ := ends.2.resolve_left (absurd isWord)
    have notAs : (ahead rest).lexeme ≠ "as" := by
      intro isAs
      simp [isAs, endsOperand] at endsHere
    simp [wordSuffix?, peek_eq, isWord, notAs, notMatch, endsHere]
  · simp [wordSuffix?, peek_eq, isWord]

theorem Grammar.suffixes_of_endsOperand (ends : (ahead rest).endsOperand) :
    grammar.suffixes parse bound (fuel + 1) value rest = .ok (value, rest) := by
  have endsPlain : (ahead rest).endsPlain := by
    rw [Token.endsOperand, Bool.and_eq_true] at ends
    exact ends.1
  simp [suffixes, access?_of_endsPlain endsPlain, wordSuffix?_of_endsOperand ends]

/-! ## Reading at a place -/

namespace Level

/-- The reader of a level at a depth of the grammar. -/
def reader (parse : TextParser) (bound : Nat) : Level → Reader Expr
  | .primary => (Grammar.upTo parse bound).primary parse (bound + 1)
  | .plain => Grammar.wordSuffix?.plainOperand (Grammar.upTo parse bound) parse (bound + 1)
  | .layer rank => (Grammar.upTo parse bound).layer parse (bound + 1) rank
  | .whole => (Grammar.upTo parse bound).expression

/-- What is read behind the part of an operand or a chain that has been read. -/
def loop (parse : TextParser) (bound fuel : Nat) (left : Expr) :
    Level → Reader Expr
  | .plain =>
    Grammar.wordSuffix?.plainSuffixes (Grammar.upTo parse bound) (bound + 1) fuel left
  | .layer 0 => (Grammar.upTo parse bound).suffixes parse (bound + 1) fuel left
  | .layer (rank + 1) =>
    chainFrom (operatorsAt rank) ((Grammar.upTo parse bound).layer parse (bound + 1) rank) fuel left
  | .primary | .whole => pure left

/-- The tokens begin what is read at the level: its loop goes on behind them from the value. -/
def Begins (parse : TextParser) (level : Level) (tokens : List Token)
    (value : Expr) (rest : List Token) :
    Prop :=
  ∃ taken, ∀ᶠ bound in atTop,
    level.reader parse bound (tokens ++ rest) =
      level.loop parse bound (bound + 1 - taken) value rest

variable {level : Level}

/-- A round of the loop goes on from a longer operand or chain. -/
theorem Begins.round {middle : List Token} {longer : Expr}
    (begins : level.Begins parse tokens left (middle ++ rest)) (round : ∀ᶠ bound in atTop, ∀ fuel,
      level.loop parse bound (fuel + 1) left (middle ++ rest) =
        level.loop parse bound fuel longer rest) :
    level.Begins parse (tokens ++ middle) longer rest := by
  obtain ⟨taken, begins⟩ := begins
  refine ⟨taken + 1, ?_⟩
  filter_upwards [begins, round, eventually_ge_atTop taken] with bound begins round enough
  rw [append_assoc, begins, show bound + 1 - taken = bound + 1 - (taken + 1) + 1 by omega, round]

theorem loop_of_ends (ends : level.Ends (ahead rest)) (value : Expr) (bound fuel : Nat) :
    level.loop parse bound (fuel + 1) value rest = .ok (value, rest) := by
  cases level with
  | plain => simp [loop, wordSuffix?.plainSuffixes, access?_of_endsPlain ends]
  | layer rank =>
    cases rank with
    | zero => exact suffixes_of_endsOperand ends
    | succ rank =>
      have noOperator : operatorsAt rank (ahead rest) = none := ends
      simp [loop, chainFrom, peek_eq, noOperator]
  | primary | whole => rfl

/-- Where nothing goes on, the loop has read everything. -/
theorem Begins.ended (begins : level.Begins parse tokens value rest)
    (ends : level.Ends (ahead rest)) :
    ∀ᶠ bound in atTop, level.reader parse bound (tokens ++ rest) = .ok (value, rest) := by
  obtain ⟨taken, begins⟩ := begins
  filter_upwards [begins, eventually_ge_atTop taken] with bound begins enough
  rw [begins, show bound + 1 - taken = bound - taken + 1 by omega, loop_of_ends ends]

end Level

/-- The reader of a place at a depth of the grammar. -/
def Place.reader (parse : TextParser) (bound : Nat) :
    (place : Place) → Reader place.Value
  | .expr level => level.reader parse bound
  | .key => (Grammar.upTo parse bound).key parse
  | .field => (Grammar.upTo parse bound).field parse
  | .parameter => (Grammar.upTo parse bound).parameter
  | .type => TypeSpec.reader (bound + 1)
  | .pattern => (Grammar.upTo parse bound).matchPattern
  | .alternative => (Grammar.upTo parse bound).matchCase
  | .alternatives => (Grammar.upTo parse bound).matchCases (bound + 1)
  | .items bracket item => Reader.itemsThen bracket.close (item.reader parse bound) (bound + 1)
  | .list bracket item =>
    Reader.optional bracket.close
      (Reader.itemsThen bracket.close (item.reader parse bound) (bound + 1))

/-- The tokens are read by a loop within some number of rounds. -/
def ReadsWithin (loop : Nat → Nat → Reader α) (tokens : List Token) (value : α)
    (rest : List Token) : Prop :=
  ∃ least, ∀ᶠ bound in atTop, ∀ fuel, loop bound (fuel + least) (tokens ++ rest) = .ok (value, rest)

/-- The tokens are read as the value at the place in front of others.  Operands and chains are read
up to the loop that goes on behind them. -/
def Place.Reads (parse : TextParser) :
    (place : Place) → List Token → place.Value → List Token → Prop
  | .expr .plain => Level.Begins parse .plain
  | .expr (.layer rank) => Level.Begins parse (.layer rank)
  | .items bracket item =>
    ReadsWithin fun bound => Reader.itemsThen bracket.close (item.reader parse bound)
  | .alternatives => ReadsWithin fun bound => (Grammar.upTo parse bound).matchCases
  | place => fun tokens value rest =>
    ∀ᶠ bound in atTop, place.reader parse bound (tokens ++ rest) = .ok (value, rest)

theorem ReadsWithin.ended {loop : Nat → Nat → Reader α} {value : α}
    (reads : ReadsWithin loop tokens value rest) :
    ∀ᶠ bound in atTop, loop bound (bound + 1) (tokens ++ rest) = .ok (value, rest) := by
  obtain ⟨least, reads⟩ := reads
  filter_upwards [reads, eventually_ge_atTop least] with bound reads enough
  rw [show bound + 1 = bound + 1 - least + least by omega, reads]

theorem Place.Reads.ended {place : Place} {value : place.Value}
    (reads : place.Reads parse tokens value rest) (ends : place.Ends (ahead rest)) :
    ∀ᶠ bound in atTop, place.reader parse bound (tokens ++ rest) = .ok (value, rest) := by
  cases place with
  | expr level =>
    cases level with
    | plain | layer => exact Level.Begins.ended reads ends
    | primary | whole => exact reads
  | items | alternatives => exact ReadsWithin.ended reads
  | _ => exact reads

/-! ## What an expression starts with and what it leaves -/

/-- The token stands behind the name of a parameter. -/
def Token.followsParameter (token : Token) : Bool :=
  token.kind == .assign || token.kind == .comma || token.kind == .closeParen

theorem ahead_append (notEmpty : tokens ≠ []) (rest : List Token) :
    ahead (tokens ++ rest) = ahead tokens := by
  cases tokens with
  | nil => contradiction
  | cons => rfl

theorem Derives.ne_nil {hole : Option Hole} {place : Place} {value : place.Value}
    (derives : Derives parse hole place tokens value next) :
    tokens ≠ [] := by
  induction derives <;> simp_all

/-- The tokens do not start like the parameters of a lambda. -/
def StartsPlainly (tokens : List Token) : Prop :=
  ∃ first others, tokens = first :: others ∧ first.kind ≠ .closeParen ∧
    (first.kind = .word → ∀ second ∈ others.head?, second.followsParameter = false)

theorem StartsPlainly.append (starts : StartsPlainly tokens)
    (goesOn : token.followsParameter = false) :
    StartsPlainly (tokens ++ token :: others) := by
  obtain ⟨first, more, rfl, notClosed, isPlain⟩ := starts
  refine ⟨first, more ++ token :: others, rfl, notClosed, fun isWord second isSecond => ?_⟩
  cases more with
  | nil =>
    cases isSecond
    exact goesOn
  | cons => exact isPlain isWord second isSecond

theorem operatorsAt_kind {rank : Nat} {combine : Expr → Expr → Expr}
    (combines : operatorsAt rank token = some combine) :
    token.followsParameter = false ∧ token.kind ≠ .finish ∧ token.kind.isPlain := by
  unfold operatorsAt multiplicativeOperators additiveOperators comparisonOperators
    defaultOperators at combines
  split at combines <;> beta_reduce at combines <;> split at combines <;>
    simp_all [followsParameter, Token.Kind.isPlain, Token.Kind.opens, Token.Kind.ends]

/-- At a place of an expression, the tokens start plainly. -/
def Place.StartsPlainly : Place → List Token → Prop
  | .expr _, tokens => Weave.StartsPlainly tokens
  | _, _ => True

theorem Derives.startsPlainly {place : Place} {value : place.Value}
    (derives : Derives parse none place tokens value next) :
    place.StartsPlainly tokens := by
  induction derives with
  | hole isHole => cases isHole
  | @literal token _ _ isRead =>
    refine ⟨token, [], rfl, fun isClose => ?_, fun _ _ isNone => by cases isNone⟩
    simp [Token.literal, isClose] at isRead
  | list opens | object opens | lambda opens | enclosed opens =>
    exact ⟨_, _, rfl, by simp [opens], by simp [opens]⟩
  | start _ _ ih | rise _ _ ih | expression _ _ _ ih => exact ih
  | property _ _ isDot _ ih | safe _ _ isDot _ ih =>
    exact StartsPlainly.append ih (by simp [followsParameter, isDot])
  | index _ _ opens _ _ ih | call _ _ opens _ ih =>
    exact StartsPlainly.append ih (by simp [followsParameter, opens])
  | coercion _ isAs _ _ ih | coercionWith _ isAs _ _ _ ih | matching _ isAs _ _ _ ih =>
    simp only [Token.isWord, Bool.and_eq_true, beq_iff_eq] at isAs
    exact StartsPlainly.append ih (by simp [followsParameter, isAs])
  | infixCall _ isWord _ _ _ _ _ ih =>
    exact StartsPlainly.append ih (by simp [followsParameter, isWord])
  | join _ combines _ _ ih => exact StartsPlainly.append ih (operatorsAt_kind combines).1
  | conditional isIf opens =>
    simp only [Token.isWord, Bool.and_eq_true, beq_iff_eq] at isIf
    refine ⟨_, _, rfl, by simp [isIf], fun _ second isSecond => ?_⟩
    cases isSecond
    simp [followsParameter, opens]
  | _ => trivial

/-- The token ends all chains of operators up to a rank, and the operands in them. -/
def Token.EndsUpTo (rank : Nat) (token : Token) : Prop :=
  ∀ lower ≤ rank, (Level.layer lower).Ends token

theorem Token.EndsUpTo.succ (below : token.EndsUpTo rank)
    (ends : (Level.layer (rank + 1)).Ends token) :
    token.EndsUpTo (rank + 1) := by
  intro lower isLess
  rcases Nat.lt_or_eq_of_le isLess with isBelow | rfl
  · exact below lower (Nat.le_of_lt_succ isBelow)
  · exact ends

namespace Grammar

theorem access?_eq_none (run : grammar.access? bound left tokens = .ok (none, rest)) :
    (ahead tokens).endsPlain ∧ rest = tokens := by
  rw [access?, peek_bind] at run
  cases isKind : (ahead tokens).kind with
  | dot | safeDot | openParen | openBracket =>
    simp [isKind, bind_eq_ok, -run_bind, -bind_pure_comp] at run
  | _ =>
    simp only [isKind] at run
    cases run
    simp [endsPlain, isKind]

theorem wordSuffix?_eq_none (run : grammar.wordSuffix? parse bound left tokens = .ok (none, rest))
    (ends : (ahead tokens).endsPlain) :
    (ahead tokens).endsOperand ∧ rest = tokens := by
  rw [wordSuffix?, peek_bind] at run
  rw [Token.endsOperand, ends]
  by_cases isWord : (ahead tokens).kind = .word
  · simp only [isWord, bne_self_eq_false, Bool.false_eq_true, if_false] at run
    split at run
    · simp only [bind_eq_ok, peek_bind] at run
      obtain ⟨_, _, _, _, _, _, run⟩ := run
      split at run <;> simp [bind_eq_ok, -run_bind, -bind_pure_comp] at run
    · split at run
      · simp only [bind_eq_ok] at run
        obtain ⟨_, _, _, _, _, _, _, _, _, run⟩ := run
        split at run <;> simp at run
      · split at run
        · simp_all
        · split at run <;> simp [bind_eq_ok, -run_bind, -bind_pure_comp] at run
  · simp only [isWord, bne_iff_ne, ne_eq] at run
    cases run
    simp [isWord]

theorem ends_of_suffixes (run : grammar.suffixes parse bound fuel left tokens = .ok (value, rest)) :
    (ahead rest).endsOperand := by
  induction fuel generalizing left tokens with
  | zero => cases run
  | succ _ ih =>
    simp only [suffixes, bind_eq_ok] at run
    obtain ⟨found, middle, accessRun, run⟩ := run
    cases found with
    | some => exact ih run
    | none =>
      obtain ⟨endsPlain, rfl⟩ := access?_eq_none accessRun
      simp only [bind_eq_ok] at run
      obtain ⟨found, _, suffixRun, run⟩ := run
      cases found with
      | some => exact ih run
      | none =>
        obtain ⟨ends, rfl⟩ := wordSuffix?_eq_none suffixRun endsPlain
        cases run
        exact ends

theorem ends_of_chainFrom {operators : Operators} {item : Reader Expr} {holds : Token → Prop}
    (leaves : ∀ tokens value rest, item tokens = .ok (value, rest) → holds (ahead rest))
    (start : holds (ahead tokens))
    (run : chainFrom operators item fuel left tokens = .ok (value, rest)) :
    holds (ahead rest) ∧ operators (ahead rest) = none := by
  induction fuel generalizing left tokens with
  | zero => cases run
  | succ _ ih =>
    rw [chainFrom, peek_bind] at run
    cases isOperator : operators (ahead tokens) with
    | none =>
      simp only [isOperator] at run
      cases run
      exact ⟨start, isOperator⟩
    | some =>
      simp only [isOperator, bind_eq_ok] at run
      obtain ⟨_, _, _, _, _, itemRun, run⟩ := run
      exact ih (leaves _ _ _ itemRun) run

theorem ends_of_layer {rank : Nat}
    (run : grammar.layer parse bound rank tokens = .ok (value, rest)) :
    (ahead rest).EndsUpTo rank := by
  induction rank generalizing tokens value rest with
  | zero =>
    simp only [layer, operandLayer, bind_eq_ok] at run
    obtain ⟨_, _, _, run⟩ := run
    intro lower isLess
    obtain rfl := Nat.le_zero.mp isLess
    exact ends_of_suffixes run
  | succ _ ih =>
    simp only [layer, chain, bind_eq_ok] at run
    obtain ⟨_, _, itemRun, run⟩ := run
    obtain ⟨below, ends⟩ := ends_of_chainFrom (fun _ _ _ => ih) (ih itemRun) run
    exact below.succ ends

theorem ends_of_operand (run : (upTo parse bound).operand tokens = .ok (value, rest)) :
    (ahead rest).endsOperand := by
  cases bound with
  | zero => cases run
  | succ => exact @ends_of_layer _ _ _ _ _ _ 0 run 0 (Nat.le_refl 0)

/-- An expression leaves what cannot go on. -/
theorem ends_of_expression (run : (upTo parse bound).expression tokens = .ok (value, rest)) :
    (ahead rest).EndsUpTo 4 := by
  induction bound generalizing tokens value rest with
  | zero => cases run
  | succ _ ih =>
    simp only [upTo, step, expressionLayer, peek_bind] at run
    split at run
    · simp only [bind_eq_ok, peek_bind] at run
      obtain ⟨_, _, _, _, _, _, _, _, _, _, _, _, _, _, _, run⟩ := run
      split at run
      · simp only [bind_eq_ok] at run
        obtain ⟨_, _, _, _, _, lastRun, ⟨⟩⟩ := run
        exact ih lastRun
      · cases run
    · exact ends_of_layer run

end Grammar

/-! ## Primary expressions -/

namespace Grammar

theorem primary_of_literal (isRead : token.literal parse = .ok value) (rest : List Token) :
    grammar.primary parse bound (token :: rest) = .ok (value, rest) := by
  cases isKind : token.kind <;> simp_all [literal, primary, string, Except.map]

theorem primary_of_parenthesis (opens : opening.kind = .openParen) :
    grammar.primary parse bound (opening :: rest) =
      grammar.parenthesis bound (opening :: rest) := by
  simp [primary, opens]

theorem parenthesis_of_lambda (run : grammar.lambda bound tokens = .ok (value, rest)) :
    grammar.parenthesis bound tokens = .ok (value, rest) := by
  simp [parenthesis, run]

/-- A primary expression in front of what ends all operators is read by all layers. -/
theorem layer_of_primary (run : grammar.primary parse (bound + 1) tokens = .ok (value, rest))
    (ends : (ahead rest).EndsUpTo rank) :
    grammar.layer parse (bound + 1) rank tokens = .ok (value, rest) := by
  induction rank with
  | zero =>
    simp [layer, operandLayer, run, suffixes_of_endsOperand (ends 0 (Nat.le_refl 0))]
  | succ rank ih =>
    have noOperator : operatorsAt rank (ahead rest) = none := ends _ (Nat.le_refl _)
    have below := ih fun lower isLess => ends lower (Nat.le_succ_of_le isLess)
    simp [layer, chain, below, chainFrom, peek_eq, noOperator]

/-- What starts plainly is no parameter list, unless it is one word in front of an arrow. -/
theorem lambda_refuses (opens : opening.kind = .openParen) (closes : closing.kind = .closeParen)
    (starts : StartsPlainly inner)
    (noBinder : (ahead rest).kind = .arrow → ∀ word, inner = [word] → word.kind ≠ .word) :
    ∃ fault, grammar.lambda (bound + 1) (opening :: (inner ++ closing :: rest)) = .error fault ∧
      fault.isRecoverable := by
  obtain ⟨first, others, rfl, notClosed, isPlain⟩ := starts
  by_cases isWord : first.kind = .word
  · cases others with
    | nil =>
      have noArrow : (ahead rest).kind ≠ .arrow := fun isArrow => noBinder isArrow first rfl isWord
      simp [lambda, opens, parameters, Reader.optional, isWord, Reader.itemsThen, parameter, closes,
        Reader.expect_of_ne noArrow, ParseFault.isRecoverable]
    | cons second =>
      have goesOn := isPlain isWord second rfl
      simp only [followsParameter, Bool.or_eq_false_iff, beq_eq_false_iff_ne] at goesOn
      simp [lambda, opens, parameters, Reader.optional, isWord, Reader.itemsThen, parameter, goesOn,
        ParseFault.isRecoverable]
  · simp [lambda, opens, parameters, Reader.optional, notClosed, Reader.itemsThen, parameter,
      isWord, ParseFault.isRecoverable]

/-- A lambda in parentheses is a lambda between parentheses. -/
theorem enclosedLambda_eq (grammar : Grammar) (bound : Nat) : grammar.enclosedLambda bound = (do
      let _ ← expect .openParen
      let value ← grammar.lambda bound
      let _ ← expect .closeParen
      return value) := by
  simp [enclosedLambda, lambda]

/-- An expression between parentheses is read, also if it is a lambda. -/
theorem primary_of_expression (opens : opening.kind = .openParen)
    (closes : closing.kind = .closeParen) (starts : StartsPlainly inner)
    (noBinder : (ahead rest).kind = .arrow → ∀ word, inner = [word] → word.kind ≠ .word)
    (run : (upTo parse bound).expression (inner ++ closing :: rest) = .ok (value, closing :: rest))
    (runAgain : (upTo parse (bound + 1)).expression (inner ++ closing :: rest) =
        .ok (value, closing :: rest)) :
    (upTo parse bound).primary parse (bound + 1) (opening :: (inner ++ closing :: rest)) =
      .ok (value, rest) := by
  obtain ⟨fault, refused, recovers⟩ :=
    @lambda_refuses (upTo parse bound) bound _ _ _ _ opens closes starts noBinder
  have enclosedRun :
      (upTo parse bound).enclosed (opening :: (inner ++ closing :: rest)) = .ok (value, rest) := by
    simp [enclosed, opens, run, closes]
  rw [primary_of_parenthesis opens, parenthesis, run_bind, run_attempt, refused]
  simp only [recovers, if_true]
  rw [run_bind, run_attempt, enclosedLambda_eq, run_bind, run_expect,
    if_pos opens]
  simp only [reduceCtorEq, if_false]
  rw [run_bind]
  obtain ⟨first, others, rfl, _⟩ := starts
  by_cases isOpen : first.kind = .openParen
  · -- The inside is read as a lambda if it can be, also where no parentheses stand around it.
    have notIf : first.isWord "if" = false := by simp [isWord, isOpen]
    simp only [upTo, step, expressionLayer, cons_append, peek_bind, ahead_cons, notIf,
      Bool.false_eq_true, if_false, operatorLayers_eq_layer] at runAgain
    cases lambdaRun :
      (upTo parse bound).lambda (bound + 1) (first :: others ++ closing :: rest) with
    | ok =>
      have bodyRun := lambdaRun
      simp only [lambda, bind_eq_ok] at bodyRun
      obtain ⟨_, _, _, _, _, _, _, _, _, _, _, bodyRun, ⟨⟩⟩ := bodyRun
      have primaryRun : (upTo parse bound).primary parse (bound + 1) _ = _ :=
        (primary_of_parenthesis isOpen).trans (parenthesis_of_lambda lambdaRun)
      have layerRun := layer_of_primary primaryRun (ends_of_expression bodyRun)
      cases layerRun.symm.trans runAgain
      simp [closes]
    | error fault =>
      cases forGood : fault.isRecoverable with
      | true =>
        simp only [forGood]
        exact enclosedRun
      | false =>
        have fails :
            (upTo parse bound).primary parse (bound + 1) (first :: (others ++ closing :: rest)) =
              .error fault := by
          rw [cons_append] at lambdaRun
          simp [primary_of_parenthesis isOpen, parenthesis, lambdaRun, forGood]
        simp [layer, chain, operandLayer, fails] at runAgain
  · have noLambda :
        (upTo parse bound).lambda (bound + 1) (first :: others ++ closing :: rest) =
          .error (.expected .openParen first.kind first.position) := by
      simp [lambda, isOpen]
    rw [noLambda]
    exact enclosedRun

end Grammar

/-! ## Derivations -/

theorem Bracket.close_ne_comma (bracket : Bracket) : bracket.close ≠ .comma := by
  cases bracket <;> decide

theorem Bracket.close_ne_finish (bracket : Bracket) : bracket.close ≠ .finish := by
  cases bracket <;> decide

theorem Reader.optional_itemsUntil {bracket : Bracket} {item : Reader α}
    {found : List α × List Token} :
    optional bracket.close (itemsUntil bracket.close item bound) tokens = .ok found ↔
      optional bracket.close (itemsThen bracket.close item bound) tokens = .ok found := by
  simp only [optional, accept_bind_eq_ok bracket.close_ne_finish, if_true, Bool.false_eq_true,
    if_false, itemsUntil_eq_ok bracket.close_ne_comma bracket.close_ne_finish]

/-- What holds one level deeper from some depth on holds from some depth on. -/
theorem eventually_of_succ {holds : Nat → Prop}
    (eventually : ∀ᶠ bound in atTop, holds (bound + 1)) :
    ∀ᶠ bound in atTop, holds bound := by
  obtain ⟨least, holdsFrom⟩ := eventually_atTop.mp eventually
  refine eventually_atTop.mpr ⟨least + 1, fun bound enough => ?_⟩
  obtain ⟨fewer, rfl⟩ := Nat.exists_eq_add_of_le' (Nat.le_of_add_left_le enough)
  exact holdsFrom fewer (by omega)

namespace Level

variable {level : Level} {suffix : List Token} {longer : Expr}

/-- A selector, a call or an index makes an operand longer. -/
theorem Begins.access (isOperand : level.IsOperand)
    (begins : level.Begins parse tokens left (suffix ++ rest)) (run : ∀ᶠ bound in atTop,
      (upTo parse bound).access? (bound + 1) left (suffix ++ rest) =
        .ok (some longer, rest)) :
    level.Begins parse (tokens ++ suffix) longer rest := by
  refine begins.round (run.mono fun bound run fuel => ?_)
  rcases isOperand with rfl | rfl
  · simp [loop, wordSuffix?.plainSuffixes, run]
  · simp [loop, suffixes, run]

/-- A word and what belongs to it make an operand longer. -/
theorem Begins.word {word : Token}
    (begins : (layer 0).Begins parse tokens left (word :: suffix ++ rest))
    (isWord : word.kind = .word) (run : ∀ᶠ bound in atTop,
      (upTo parse bound).wordSuffix? parse (bound + 1) left (word :: suffix ++ rest) =
        .ok (some longer, rest)) :
    (layer 0).Begins parse (tokens ++ word :: suffix) longer rest := by
  refine begins.round (run.mono fun bound run fuel => ?_)
  have noAccess :
      (upTo parse bound).access? (bound + 1) left (word :: suffix ++ rest) =
        .ok (none, word :: suffix ++ rest) :=
    access?_of_endsPlain (by simp [endsPlain, isWord])
  simp only [loop, suffixes, run_bind, noAccess, run]

end Level

theorem Place.reads_of_isOperand {level : Level} (isOperand : level.IsOperand) :
    (Place.expr level).Reads parse = level.Begins parse := by
  rcases isOperand with rfl | rfl <;> rfl

theorem Selects.run {names : List Token} {selector : Selector} (selects : Selects names selector)
    (rest : List Token) :
    Grammar.selector (names ++ rest) = .ok (selector, rest) := by
  cases selects with
  | key isWord => simp [Grammar.selector, isWord]
  | every isStar isWord => simp [Grammar.selector, isStar, isWord]
  | marked isSign isWord => simp [Grammar.selector, isSign, isWord]

theorem Derives.reads {place : Place} {value : place.Value}
    (derives : Derives parse none place tokens value next) :
    ∀ rest, ahead rest = next → place.Reads parse tokens value rest := by
  induction derives with (
    rintro rest rfl
    try simp (disch := assumption) only [↓Place.reads_of_isOperand, Place.Reads, Place.reader,
      Level.reader] at *)
  | hole isHole => cases isHole
  | literal isRead => exact .of_forall fun bound => primary_of_literal isRead rest
  | @list _ _ _ _ opens _ ih =>
    filter_upwards [ih rest rfl] with bound insideRun
    have listRun := (@Reader.optional_itemsUntil _ _ _ .square _ _).mpr insideRun
    simp only [Bracket.close] at listRun
    simp [primary, Grammar.list, opens, listRun]
  | @object _ _ _ _ opens _ ih =>
    filter_upwards [ih rest rfl] with bound insideRun
    have listRun := (@Reader.optional_itemsUntil _ _ _ .curly _ _).mpr insideRun
    simp only [Bracket.close] at listRun
    simp [primary, Grammar.object, opens, listRun]
  | @lambda names arrow tokens opening _ parameters body opens _ isArrow _ ihBinders ih =>
    filter_upwards [ihBinders (arrow :: (tokens ++ rest)) rfl, ih rest rfl] with bound bindersRun
      bodyRun
    have lambdaRun :
        (upTo parse bound).lambda (bound + 1) (opening :: (names ++ arrow :: (tokens ++ rest))) =
          .ok (.lambda parameters body, rest) := by
      simp only [Bracket.close] at bindersRun
      simp [Grammar.lambda, opens, Grammar.parameters, bindersRun, isArrow, bodyRun]
    simpa [primary_of_parenthesis opens] using parenthesis_of_lambda lambdaRun
  | @enclosed closing _ _ _ _ opens closes inside noBinder ih =>
    have run := ih (closing :: rest) rfl
    filter_upwards [run, (tendsto_add_atTop_nat 1).eventually run] with bound run runAgain
    simpa using primary_of_expression opens closes inside.startsPlainly noBinder run runAgain
  | start isOperand _ ih =>
    refine ⟨0, (ih rest rfl).mono fun bound run => ?_⟩
    rcases isOperand with rfl | rfl
    · simp [Level.reader, wordSuffix?.plainOperand, run, Level.loop]
    · simp [Level.reader, layer, operandLayer, run, Level.loop]
  | @property _ _ dot names _ _ _ isOperand _ isDot selects ih =>
    have begins := ih (dot :: names ++ rest) rfl
    refine begins.access isOperand (.of_forall fun bound => ?_)
    simp [access?, isDot, selects.run]
  | @safe _ _ dot word _ _ isOperand _ isDot isWord ih =>
    have begins := ih ([dot, word] ++ rest) rfl
    refine begins.access isOperand (.of_forall fun bound => ?_)
    simp [access?, isDot, isWord]
  | @index _ _ opening closing inner _ _ _ isOperand _ opens closes _ ihBase ih =>
    have begins := ihBase (opening :: (inner ++ [closing]) ++ rest) rfl
    refine begins.access isOperand ?_
    filter_upwards [ih (closing :: rest) rfl] with bound insideRun
    simp [access?, opens, insideRun, closes]
  | @call _ _ opening inner _ _ _ isOperand _ opens _ ihBase ih =>
    have begins := ihBase (opening :: inner ++ rest) rfl
    refine begins.access isOperand ?_
    filter_upwards [ih rest rfl] with bound insideRun
    have listRun := (@Reader.optional_itemsUntil _ _ _ .round _ _).mpr insideRun
    simp only [Bracket.close] at listRun
    simp [access?, Grammar.arguments, opens, listRun]
  | @coercion _ word names _ _ _ _ isAs _ noOptions ihBase ih =>
    rw [isWord_iff] at isAs
    refine (ihBase (word :: names ++ rest) rfl).word isAs.1 ?_
    filter_upwards [ih rest rfl] with bound targetRun
    simp [wordSuffix?, isAs, targetRun, Reader.peek_eq, noOptions]
  | @coercionWith _ word names opening inner _ _ _ _ _ isAs _ opens _ ihBase ihTarget ih =>
    rw [isWord_iff] at isAs
    refine (ihBase (word :: (names ++ opening :: inner) ++ rest) rfl).word isAs.1 ?_
    filter_upwards [ihTarget (opening :: inner ++ rest) rfl, ih rest rfl] with bound targetRun
      optionsRun
    simp only [cons_append] at targetRun optionsRun
    simp [wordSuffix?, isAs, targetRun, opens, optionsRun]
  | @matching _ word opening inner _ _ _ _ isMatch opens _ notEmpty ihBase ih =>
    rw [isWord_iff] at isMatch
    refine (ihBase (word :: (opening :: inner) ++ rest) rfl).word isMatch.1 ?_
    filter_upwards [ReadsWithin.ended (ih rest rfl)] with bound casesRun
    simp [wordSuffix?, isMatch, opens, casesRun, notEmpty]
  | @infixCall _ word _ others _ right _ _ isWord notAs calls isLevel _ ends ihBase ih =>
    have notMatch : word.lexeme ≠ "match" := by
      intro isMatch
      simp [isMatch, endsOperand] at calls
    refine (ihBase (word :: others ++ rest) rfl).word isWord ?_
    by_cases isTo : word.lexeme = "to"
    · simp only [isTo, if_true] at isLevel
      subst isLevel
      filter_upwards [Level.Begins.ended (ih rest rfl) ends] with bound run
      simp only [Level.reader] at run
      simp [wordSuffix?, isWord, isTo, endsOperand, run]
    · simp only [isTo] at isLevel
      subst isLevel
      have operandRun : ∀ᶠ bound in atTop,
          (upTo parse bound).operand (others ++ rest) = .ok (right, rest) :=
        eventually_of_succ (Level.Begins.ended (ih rest rfl) ends)
      filter_upwards [operandRun] with bound run
      simp [wordSuffix?, isWord, notAs, notMatch, calls, isTo, run]
  | @rise _ _ _ _ _ ends ih =>
    refine ⟨0, ((ih rest rfl).ended ends).mono fun bound itemRun => ?_⟩
    simp only [Level.reader] at itemRun
    simp [Level.reader, layer, chain, itemRun, Level.loop]
  | @join _ _ operator others _ _ _ _ _ combines _ ends ihBase ih =>
    refine Level.Begins.round (ihBase (operator :: others ++ rest) rfl) ?_
    filter_upwards [(ih rest rfl).ended ends] with bound itemRun fuel
    simp only [Level.reader] at itemRun
    simp [Level.loop, chainFrom, combines, (operatorsAt_kind combines).2.1, itemRun]
  | @expression _ _ _ notIf whole ends ih =>
    refine eventually_of_succ (((ih rest rfl).ended ends).mono fun bound run => ?_)
    simp only [Level.reader] at run
    simpa [upTo, step, expressionLayer, Reader.peek_eq, ahead_append whole.ne_nil, notIf,
      operatorLayers_eq_layer] using run
  | @conditional closing thenTokens otherwise elseTokens word opening inner condition whenTrue
      whenFalse _ isIf opens closes isElse inside first second ihInside ihFirst ih =>
    refine eventually_of_succ ?_
    filter_upwards [ihInside (closing :: (thenTokens ++ otherwise :: (elseTokens ++ rest))) rfl,
      ihFirst (otherwise :: (elseTokens ++ rest)) rfl, ih rest rfl] with bound insideRun firstRun
      secondRun
    rw [isWord_iff] at isIf isElse
    simp [upTo, step, expressionLayer, isIf, opens, insideRun, closes, firstRun, isElse, secondRun,
      Token.isWord]
  | @last item tokens closing bracket value _ closes ends _ ih =>
    have itemReads : item.Reads parse tokens value (closing :: rest) := ih _ rfl
    refine ⟨1, (itemReads.ended ends).mono fun bound run fuel => ?_⟩
    simp [Reader.itemsThen, run, closes, bracket.close_ne_comma, bracket.close_ne_finish]
  | @more item tokens comma _ others value _ _ isComma ends _ _ ihFirst ih =>
    have firstReads : item.Reads parse tokens value (comma :: (others ++ rest)) := ihFirst _ rfl
    obtain ⟨least, restReads⟩ := ih rest rfl
    refine ⟨least + 1, ?_⟩
    filter_upwards [firstReads.ended ends, restReads] with bound firstRun restRun fuel
    rw [← Nat.add_assoc, Reader.itemsThen]
    simp [firstRun, isComma, restRun]
  | empty closes =>
    refine .of_forall fun bound => ?_
    simp [Reader.optional, closes, Bracket.close_ne_finish]
  | @filled _ _ _ _ _ _ items ih =>
    filter_upwards [ReadsWithin.ended (ih rest rfl)] with bound run
    simp only [Reader.optional]
    rwa [Reader.run_bind, Reader.accept_of_ne (by rwa [ahead_append items.ne_nil])]
  | word isWord =>
    refine .of_forall fun bound => ?_
    simp [Grammar.key, isWord]
  | quoted isString isRead =>
    refine .of_forall fun bound => ?_
    simp only [Token.literal, isString] at isRead
    simp [Grammar.key, isString, string, isRead, Except.map]
  | @computed closing _ _ _ _ opens closes _ ih =>
    filter_upwards [ih (closing :: rest) rfl] with bound run
    simp [Grammar.key, opens, Grammar.enclosed, run, closes]
  | @field _ colon tokens _ _ _ isColon _ _ ihNamed ih =>
    filter_upwards [ihNamed (colon :: (tokens ++ rest)) rfl, ih rest rfl] with bound keyRun run
    simp [Grammar.field, keyRun, isColon, run]
  | parameter isWord noDefault =>
    refine .of_forall fun bound => ?_
    simp [Grammar.parameter, isWord, Reader.accept_of_ne noDefault]
  | fallback isWord isAssign _ ih =>
    filter_upwards [ih rest rfl] with bound run
    simp [Grammar.parameter, isWord, isAssign, run]
  | type isWord noArguments =>
    refine .of_forall fun bound => ?_
    simp [TypeSpec.reader, isWord, Reader.accept_of_ne noArguments]
  | generic isWord opens _ ih =>
    refine eventually_of_succ ?_
    filter_upwards [ReadsWithin.ended (ih rest rfl)] with bound run
    simp only [Bracket.close] at run ⊢
    rw [TypeSpec.reader]
    simp [isWord, opens, run]
  | binding isVar isWord noGuard =>
    refine .of_forall fun bound => ?_
    have isName := isWord_iff.mp isVar
    simp [matchPattern, isVar, isName, isWord, Reader.peek_eq, noGuard]
  | bindingWhen isVar isWord isWhen _ ih =>
    filter_upwards [ih rest rfl] with bound run
    have isName := isWord_iff.mp isVar
    have isMark := isWord_iff.mp isWhen
    simp [matchPattern, isVar, isName, isWord, isWhen, isMark, run]
  | @matcher _ _ _ notVar noGuard base ih =>
    filter_upwards [ih rest rfl] with bound run
    simp [matchPattern, Reader.peek_eq, ahead_append base.ne_nil, notVar, run,
      noGuard]
  | @matcherWhen _ mark others _ _ _ notVar isWhen base _ ihBase ih =>
    filter_upwards [ihBase (mark :: (others ++ rest)) rfl, ih rest rfl] with bound baseRun run
    have isMark := isWord_iff.mp isWhen
    simp [matchPattern, Reader.peek_eq, ahead_append base.ne_nil, notVar,
      baseRun, isWhen, isMark, run]
  | @case _ arrow tokens _ _ _ _ isCase isArrow _ _ ihMatched ih =>
    filter_upwards [ihMatched (arrow :: (tokens ++ rest)) rfl, ih rest rfl] with bound patternRun
      run
    have isName := isWord_iff.mp isCase
    simp [matchCase, isCase, isName, patternRun, isArrow, run]
  | otherwise isElse isArrow _ ih =>
    filter_upwards [ih rest rfl] with bound run
    have isName := isWord_iff.mp isElse
    simp [matchCase, isName, isArrow, run, Token.isWord]
  | noCases closes =>
    refine ⟨1, .of_forall fun bound fuel => ?_⟩
    simp [matchCases, closes]
  | @cases tokens others _ _ _ isWord _ base behind ihBase ih =>
    obtain ⟨least, restReads⟩ := ih rest rfl
    have baseReads := ihBase (others ++ rest) (ahead_append behind.ne_nil rest)
    refine ⟨least + 1, ?_⟩
    filter_upwards [baseReads, restReads] with bound baseRun restRun fuel
    have notClose : (ahead (tokens ++ (others ++ rest))).kind ≠ .closeBrace := by
      simp [ahead_append base.ne_nil, isWord]
    have noSign : (ahead (others ++ rest)).kind ≠ .comma := by
      rwa [ahead_append behind.ne_nil]
    rw [← Nat.add_assoc, matchCases, append_assoc, Reader.run_bind,
      Reader.accept_of_ne notClose]
    simp [baseRun, Reader.accept_of_ne noSign, restRun]
  | @separated tokens comma others _ _ _ isWord isComma base _ ihBase ih =>
    obtain ⟨least, restReads⟩ := ih rest rfl
    refine ⟨least + 1, ?_⟩
    filter_upwards [ihBase (comma :: others ++ rest) rfl, restReads] with bound baseRun restRun fuel
    have notClose : (ahead (tokens ++ (comma :: others ++ rest))).kind ≠ .closeBrace := by
      simp [ahead_append base.ne_nil, isWord]
    rw [← Nat.add_assoc, matchCases, append_assoc, Reader.run_bind,
      Reader.accept_of_ne notClose]
    simp only [cons_append] at baseRun
    simp [baseRun, isComma, restRun]

end Weave
