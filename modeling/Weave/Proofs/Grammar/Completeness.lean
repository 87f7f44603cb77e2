import Weave.Proofs.Grammar.Progress
import Weave.Proofs.Grammar.Soundness

namespace Weave

open List Reader Token

open Grammar (access?_eq_none ends_of_layer matchCase matchCases upTo wordSuffix?)

/-!
# What is read is derived

Whatever a reader of the grammar takes, the tokens that it has taken are derived as what it has
read.  Only where one word stands between parentheses in front of an arrow does a look behind the
tokens matter: as the arrow leads to an expression there, the word is the parameter of a lambda.
-/

variable {parse : TextParser} {bound fuel : Nat}
  {tokens rest front : List Token} {token opening : Token} {value left : Expr}

/-! ## From one level to another -/

section Levels

variable {hole : Option Hole} {next : Token} {rank : Nat}

/-- What ends the chains below a rank makes a chain of that rank out of every tighter one. -/
theorem Derives.layer_of_le (isLess : rank ≤ higher)
    (derives : Derives parse hole (.expr (.layer rank)) tokens value next)
    (ends : ∀ lower < higher, (Level.layer lower).Ends next) :
    Derives parse hole (.expr (.layer higher)) tokens value next := by
  induction isLess with
  | refl => exact derives
  | step _ ih =>
    exact .rise (ih fun lower isLess => ends lower (Nat.lt_succ_of_lt isLess))
      (ends _ (Nat.lt_succ_self _))

theorem Derives.layer (operand : Derives parse hole (.expr (.layer 0)) tokens value next)
    (ends : ∀ lower < rank, (Level.layer lower).Ends next) :
    Derives parse hole (.expr (.layer rank)) tokens value next :=
  operand.layer_of_le (Nat.zero_le rank) ends

theorem Derives.whole (operand : Derives parse hole (.expr (.layer 0)) tokens value next)
    (notIf : (ahead tokens).isWord "if" = false) (ends : next.EndsUpTo 4) :
    Derives parse hole (.expr .whole) tokens value next :=
  .expression notIf (operand.layer fun lower isLess => ends lower isLess.le)
    (ends 4 (Nat.le_refl 4))

theorem Token.endsUpTo_of_ends (isEnd : token.kind.ends) (rank : Nat) :
    token.EndsUpTo rank := by
  intro lower _
  have kinds := Token.Kind.ends_cases isEnd
  rcases lower with _ | _ | _ | _ | lower
  · rcases kinds with isKind | isKind | isKind | isKind <;>
      simp [Level.Ends, endsOperand, endsPlain, isKind]
  all_goals
    rcases kinds with isKind | isKind | isKind | isKind <;>
      simp [Level.Ends, operatorsAt, multiplicativeOperators, additiveOperators,
        comparisonOperators, defaultOperators, isKind]

end Levels

/-- The depth of a grammar is enough for the tokens and for all that stands at their end. -/
structure Fits (parse : TextParser) (bound : Nat) (tokens : List Token) :
    Prop where
  enough : tokens.length ≤ bound
  stable : ∀ more, more <:+ tokens → ∀ depth, more.length ≤ depth → ∀ found,
    (upTo parse depth).expression more = .ok found → ∀ other, more.length ≤ other →
      (upTo parse other).expression more = .ok found

theorem Fits.of_suffix (fits : Fits parse bound tokens) (isSuffix : rest <:+ tokens)
    (enough : rest.length ≤ fewer) :
    Fits parse fewer rest :=
  ⟨enough, fun more isEnd => fits.stable more (isEnd.trans isSuffix)⟩

theorem Fits.tail (fits : Fits parse (bound + 1) (token :: rest)) : Fits parse bound rest :=
  fits.of_suffix (suffix_cons token rest) (Nat.le_of_succ_le_succ fits.enough)

theorem Fits.behind (fits : Fits parse bound (front ++ rest)) : Fits parse bound rest := by
  have enough := fits.enough
  rw [length_append] at enough
  exact fits.of_suffix (suffix_append front rest) (by omega)

theorem Fits.beyond (fits : Fits parse bound (front ++ token :: rest)) : Fits parse bound rest :=
  @Fits.behind _ _ _ [token] fits.behind

/-- If the tokens start with an arrow, a grammar of at least a given depth reads an expression
behind it. -/
def Leads (parse : TextParser) (bound : Nat) (tokens : List Token) : Prop :=
  ∀ arrow more, tokens = arrow :: more → arrow.kind = .arrow →
    ∃ depth, bound ≤ depth ∧ ∃ found, (upTo parse depth).expression more = .ok found

theorem Leads.of_ne (noArrow : (ahead tokens).kind ≠ .arrow) : Leads parse bound tokens := by
  rintro _ _ rfl isArrow
  exact absurd isArrow noArrow

theorem Leads.of_succ (leads : Leads parse (bound + 1) tokens) : Leads parse bound tokens := by
  intro arrow more isWhole isArrow
  obtain ⟨depth, enough, isRead⟩ := leads arrow more isWhole isArrow
  exact ⟨depth, Nat.le_of_succ_le enough, isRead⟩

/-- What the reader takes from admitted tokens is derived at the place. -/
def Finds (parse : TextParser) (bound : Nat) (admits : List Token → Prop)
    (place : Place) (reader : Reader place.Value) :
    Prop :=
  ∀ tokens value rest, admits tokens → reader tokens = .ok (value, rest) → Leads parse bound rest →
    ∃ front, tokens = front ++ rest ∧ Derives parse none place front value (ahead rest)

section Items

variable {admits : List Token → Prop} {bracket : Bracket} {place : Place}
  {reader : Reader place.Value} (finds : Finds parse bound admits place reader)
  (closed : ∀ front rest, admits (front ++ rest) → admits rest) (ends : ∀ token, place.Ends token)
  {values : List place.Value}

include finds closed ends

theorem finds_items (admitted : admits tokens)
    (run : itemsThen bracket.close reader fuel tokens = .ok (values, rest)) :
    ∃ front, tokens = front ++ rest ∧
      Derives parse none (.items bracket place) front values (ahead rest) := by
  induction fuel generalizing tokens values with
  | zero => cases run
  | succ _ ih =>
    simp (disch := decide) only [itemsThen, ↓accept_bind_eq_ok, bind_eq_ok,
      expect_eq_ok bracket.close_ne_finish, if_true, Bool.false_eq_true, if_false] at run
    obtain ⟨_, _, firstRun, ⟨comma, _, rfl, isComma, _, _, moreRun, ⟨⟩⟩ |
      ⟨_, closing, _, ⟨rfl, closes⟩, ⟨⟩⟩⟩ := run
    · obtain ⟨front, rfl, derives⟩ := finds _ _ _ admitted firstRun (.of_ne (by simp [isComma]))
      have admittedBehind := closed (front ++ [comma]) _ (by simpa using admitted)
      obtain ⟨back, rfl, derivesMore⟩ := ih admittedBehind moreRun
      exact ⟨front ++ comma :: back, by simp, .more isComma (ends comma) derives derivesMore⟩
    · have noArrow : closing.kind ≠ .arrow := by rw [closes]; cases bracket <;> decide
      obtain ⟨front, rfl, derives⟩ := finds _ _ _ admitted firstRun (.of_ne noArrow)
      exact ⟨front ++ [closing], by simp, .last closes (ends closing) derives⟩

theorem finds_list (admitted : admits tokens)
    (run : Reader.optional bracket.close (Reader.itemsThen bracket.close reader fuel) tokens =
      .ok (values, rest)) :
    ∃ front, tokens = front ++ rest ∧
      Derives parse none (.list bracket place) front values (ahead rest) := by
  rw [Reader.optional, Reader.accept_bind_eq_ok bracket.close_ne_finish] at run
  rcases run with ⟨closing, others, rfl, closes, ⟨⟩⟩ | ⟨notClosed, run⟩
  · exact ⟨[closing], rfl, .empty closes⟩
  · obtain ⟨front, rfl, derives⟩ := finds_items finds closed ends admitted run
    rw [ahead_append derives.ne_nil] at notClosed
    exact ⟨front, rfl, .filled notClosed derives⟩

end Items

theorem finds_type (fuel : Nat) :
    Finds parse bound (fun _ => True) .type (TypeSpec.reader fuel) := by
  induction fuel with
  | zero => intro _ _ _ _ run; cases run
  | succ _ ih =>
    intro tokens value rest _ run leads
    simp (disch := decide) only [TypeSpec.reader, ↓accept_bind_eq_ok, bind_eq_ok,
      expect_eq_ok, if_true, Bool.false_eq_true, if_false] at run
    obtain ⟨name, _, ⟨rfl, isWord⟩, ⟨opening, _, rfl, opens, _, _, itemsRun, ⟨⟩⟩ |
      ⟨noArguments, ⟨⟩⟩⟩ := run
    · obtain ⟨front, rfl, derives⟩ :=
        @finds_items _ _ _ _ _ _ .angle _ _ ih (fun _ _ _ => trivial) (fun _ => trivial) _ trivial
          itemsRun
      exact ⟨name :: opening :: front, rfl, .generic isWord opens derives⟩
    · exact ⟨[name], rfl, .type isWord noArguments⟩

/-! ## Operands and chains -/

/-- What follows an operand or a chain makes it longer. -/
def Extends (parse : TextParser) (level : Level) (left : Expr)
    (tokens : List Token) (value : Expr) (rest : List Token) :
    Prop :=
  ∃ suffix, tokens = suffix ++ rest ∧
    ∀ front, Derives parse none (.expr level) front left (ahead tokens) →
      Derives parse none (.expr level) (front ++ suffix) value (ahead rest)

namespace Extends

variable {level : Level} {middle : List Token} {longer : Expr}

theorem refl (level : Level) (left : Expr) (tokens : List Token) :
    Extends parse level left tokens left tokens :=
  ⟨[], rfl, fun _ derives => by rwa [append_nil]⟩

theorem trans (first : Extends parse level left tokens longer middle)
    (second : Extends parse level longer middle value rest) :
    Extends parse level left tokens value rest := by
  obtain ⟨suffix, rfl, extend⟩ := first
  obtain ⟨more, rfl, extendMore⟩ := second
  refine ⟨suffix ++ more, by simp, fun front derives => ?_⟩
  rw [← append_assoc]
  exact extendMore _ (extend front derives)

theorem fits (isExtended : Extends parse level left tokens value rest)
    (fits : Fits parse bound tokens) :
    Fits parse bound rest := by
  obtain ⟨_, rfl, _⟩ := isExtended
  exact fits.behind

/-- What is found in front of an extension is derived with it. -/
theorem derives (isExtended : Extends parse level left tokens value rest)
    (derives : Derives parse none (.expr level) front left (ahead tokens)) :
    ∃ whole, front ++ tokens = whole ++ rest ∧
      Derives parse none (.expr level) whole value (ahead rest) := by
  obtain ⟨suffix, rfl, extend⟩ := isExtended
  exact ⟨front ++ suffix, by simp, extend front derives⟩

end Extends

theorem selects_of_run (run : Grammar.selector tokens = .ok (selector, rest)) :
    ∃ names, tokens = names ++ rest ∧ Selects names selector := by
  rw [Grammar.selector, peek_bind] at run
  cases isKind : (ahead tokens).kind with
  | star =>
    obtain ⟨star, others, rfl, isStar⟩ := exists_cons_of_ahead isKind (by decide)
    simp (disch := simp [isStar]) only [isKind, take_bind, bind_eq_ok,
      expect_eq_ok] at run
    obtain ⟨word, others, ⟨rfl, isWord⟩, ⟨⟩⟩ := run
    exact ⟨[star, word], rfl, .every isStar isWord⟩
  | atSign =>
    obtain ⟨sign, others, rfl, isSign⟩ := exists_cons_of_ahead isKind (by decide)
    simp (disch := simp [isSign]) only [isKind, take_bind, bind_eq_ok,
      expect_eq_ok] at run
    obtain ⟨word, others, ⟨rfl, isWord⟩, ⟨⟩⟩ := run
    exact ⟨[sign, word], rfl, .marked isSign isWord⟩
  | _ =>
    simp (disch := decide) only [isKind, bind_eq_ok, expect_eq_ok] at run
    obtain ⟨word, _, ⟨rfl, isWord⟩, ⟨⟩⟩ := run
    exact ⟨[word], rfl, .key isWord⟩

theorem Grammar.literal_of_string (isString : token.kind = .string)
    (run : string parse (token :: others) = .ok (value, rest)) :
    token.literal parse = .ok value ∧ rest = others := by
  rw [string, take_bind (by simp [isString]), run_liftM] at run
  rw [literal, isString]
  cases isRead : stringLiteral parse token.lexeme with
  | error =>
    rw [isRead] at run
    cases run
  | ok =>
    rw [isRead] at run
    cases run
    exact ⟨rfl, rfl⟩

theorem Grammar.literal_of_primary {grammar : Grammar} (opensNothing : token.kind.opens = false)
    (run : grammar.primary parse bound (token :: others) = .ok (value, rest)) :
    token.literal parse = .ok value ∧ rest = others := by
  cases isKind : token.kind with
  | string =>
    rw [primary, peek_bind, ahead_cons] at run
    simp only [isKind] at run
    exact literal_of_string isKind run
  | openParen | openBracket | openBrace => simp [isKind, Token.Kind.opens] at opensNothing
  | _ => simp_all [primary, literal]

theorem Derives.kind_of_alternative {hole : Option Hole} {alt : MatchCase Expr} {next : Token}
    (derives : Derives parse hole .alternative tokens alt next) : (ahead tokens).kind = .word := by
  cases derives with
  | case isWord | otherwise isWord => exact (isWord_iff.mp isWord).1

/-- Nothing goes on with an arrow. -/
theorem Leads.of_loop {level : Level}
    (run : level.loop parse depth fuel left tokens = .ok (value, rest))
    (leads : Leads parse bound rest) :
    Leads parse bound tokens := by
  rintro arrow more rfl isArrow
  have ends : level.Ends arrow := by
    rcases level with _ | _ | rank | _
    · trivial
    · simp [Level.Ends, Token.endsPlain, isArrow]
    · rcases rank with _ | _ | _ | _ | rank <;>
        simp [Level.Ends, Token.endsOperand, Token.endsPlain, operatorsAt, multiplicativeOperators,
          additiveOperators, comparisonOperators, defaultOperators, isArrow]
    · trivial
  cases fuel with
  | zero =>
    rcases level with _ | _ | _ | _
    · cases run
      exact leads arrow more rfl isArrow
    · cases run
    · rename_i rank
      cases rank <;> cases run
    · cases run
      exact leads arrow more rfl isArrow
  | succ =>
    rw [Level.loop_of_ends ends] at run
    cases run
    exact leads arrow more rfl isArrow

theorem extends_chain (item : Finds parse bound (Fits parse (bound + 1)) (.expr (.layer rank))
      ((upTo parse bound).layer parse (bound + 1) rank))
    (fits : Fits parse (bound + 1) tokens)
    (run : (Level.layer (rank + 1)).loop parse bound fuel left tokens = .ok (value, rest))
    (leads : Leads parse bound rest) :
    Extends parse (.layer (rank + 1)) left tokens value rest := by
  induction fuel generalizing left tokens with
  | zero => cases run
  | succ fuel ih =>
    rw [Level.loop, chainFrom, peek_bind] at run
    cases isOperator : operatorsAt rank (ahead tokens) with
    | none =>
      simp only [isOperator] at run
      cases run
      exact .refl _ _ _
    | some combine =>
      simp only [isOperator] at run
      obtain ⟨operator, others, rfl, _⟩ :=
        exists_cons_of_ahead rfl (operatorsAt_kind isOperator).2.1
      rw [ahead_cons] at isOperator
      rw [take_bind (operatorsAt_kind isOperator).2.1, bind_eq_ok] at run
      obtain ⟨right, middle, rightRun, run⟩ := run
      have fitsBehind : Fits parse (bound + 1) others := @Fits.behind _ _ _ [operator] fits
      have loopRun :
          (Level.layer (rank + 1)).loop parse bound fuel (combine left right) middle =
            .ok (value, rest) := run
      obtain ⟨back, rfl, derives⟩ := item _ _ _ fitsBehind rightRun (leads.of_loop loopRun)
      have isExtended :
          Extends parse (.layer (rank + 1)) left (operator :: (back ++ middle))
            (combine left right) middle :=
        ⟨operator :: back, rfl, fun front base =>
          .join base isOperator derives (ends_of_layer rightRun rank (Nat.le_refl rank))⟩
      exact isExtended.trans (ih fitsBehind.behind run)

section Nested

variable (nested :
  Finds parse bound (Fits parse bound) (.expr .whole) (upTo parse bound).expression)

include nested

theorem finds_parameter :
    Finds parse bound (Fits parse bound) .parameter (upTo parse bound).parameter := by
  intro tokens value rest fits run leads
  simp (disch := decide) only [Grammar.parameter, ↓accept_bind_eq_ok, bind_eq_ok,
    expect_eq_ok, if_true, Bool.false_eq_true, if_false] at run
  obtain ⟨name, _, ⟨rfl, isWord⟩, ⟨assign, _, rfl, isAssign, _, _, valueRun, ⟨⟩⟩ |
    ⟨noDefault, ⟨⟩⟩⟩ := run
  · obtain ⟨front, rfl, derives⟩ :=
      nested _ _ _ (@Fits.behind _ _ _ [name, assign] fits) valueRun leads
    exact ⟨name :: assign :: front, rfl, .fallback isWord isAssign derives⟩
  · exact ⟨[name], rfl, .parameter isWord noDefault⟩

theorem finds_enclosed (fits : Fits parse (bound + 1) (opening :: others))
    (opens : opening.kind = .openParen)
    (run : (upTo parse bound).enclosed (opening :: others) = .ok (value, rest)) :
    ∃ inner closing, others = inner ++ closing :: rest ∧ closing.kind = .closeParen ∧
      Derives parse none (.expr .whole) inner value closing := by
  simp (disch := simp [opens]) only [Grammar.enclosed, take_bind, bind_eq_ok,
    expect_eq_ok] at run
  obtain ⟨_, _, innerRun, closing, _, ⟨rfl, closes⟩, ⟨⟩⟩ := run
  obtain ⟨inner, rfl, derives⟩ := nested _ _ _ fits.tail innerRun (.of_ne (by simp [closes]))
  exact ⟨inner, closing, rfl, closes, derives⟩

theorem finds_key (fits : Fits parse bound tokens)
    (run : (upTo parse bound).key parse tokens = .ok (key, rest)) :
    ∃ front, tokens = front ++ rest ∧ Derives parse none .key front key (ahead rest) := by
  rw [Grammar.key, peek_bind] at run
  cases isKind : (ahead tokens).kind with
  | string =>
    obtain ⟨token, others, rfl, isString⟩ := exists_cons_of_ahead isKind (by decide)
    simp only [isKind] at run
    obtain ⟨isRead, rfl⟩ := Grammar.literal_of_string isString run
    exact ⟨[token], rfl, .quoted isString isRead⟩
  | openParen =>
    obtain ⟨opening, others, rfl, opens⟩ := exists_cons_of_ahead isKind (by decide)
    simp only [isKind] at run
    obtain ⟨inner, closing, rfl, closes, derives⟩ :=
      finds_enclosed nested
        (fits.of_suffix (suffix_refl _) (Nat.le_succ_of_le fits.enough)) opens run
    exact ⟨opening :: (inner ++ [closing]), by simp, .computed opens closes derives⟩
  | _ =>
    simp (disch := decide) only [isKind, bind_eq_ok, expect_eq_ok] at run
    obtain ⟨name, _, ⟨rfl, isWord⟩, ⟨⟩⟩ := run
    exact ⟨[name], rfl, .word isWord⟩

theorem finds_field :
    Finds parse bound (Fits parse bound) .field ((upTo parse bound).field parse) := by
  intro tokens value rest fits run leads
  simp (disch := decide) only [Grammar.field, bind_eq_ok, expect_eq_ok] at run
  obtain ⟨_, _, keyRun, colon, _, ⟨rfl, isColon⟩, _, _, valueRun, ⟨⟩⟩ := run
  obtain ⟨front, rfl, named⟩ := finds_key nested fits keyRun
  obtain ⟨back, rfl, derives⟩ := nested _ _ _ fits.beyond valueRun leads
  exact ⟨front ++ colon :: back, by simp, .field isColon named derives⟩

theorem finds_lambda (fits : Fits parse (bound + 1) tokens)
    (run : (upTo parse bound).lambda (bound + 1) tokens = .ok (value, rest))
    (leads : Leads parse bound rest) :
    ∃ opening others, tokens = opening :: (others ++ rest) ∧ opening.kind = .openParen ∧
      Derives parse none (.expr .primary) (opening :: others) value (ahead rest) := by
  simp (disch := decide) only [Grammar.lambda, bind_eq_ok, expect_eq_ok] at run
  obtain ⟨opening, _, ⟨rfl, opens⟩, _, _, bindersRun, arrow, _, ⟨rfl, isArrow⟩, _, _,
    bodyRun, ⟨⟩⟩ := run
  obtain ⟨names, rfl, binders⟩ :=
    @finds_list _ _ _ _ _ _ .round _ _ (finds_parameter nested) (fun _ _ => Fits.behind)
      (fun _ => trivial) _ fits.tail bindersRun
  obtain ⟨back, rfl, derives⟩ := nested _ _ _ fits.tail.beyond bodyRun leads
  exact ⟨opening, names ++ arrow :: back, by simp, opens, .lambda opens binders isArrow derives⟩

theorem finds_parenthesis (opens : opening.kind = .openParen)
    (fits : Fits parse (bound + 1) (opening :: others))
    (run : (upTo parse bound).parenthesis (bound + 1) (opening :: others) =
      .ok (value, rest))
    (leads : Leads parse bound rest) :
    ∃ front, opening :: others = front ++ rest ∧
      Derives parse none (.expr .primary) front value (ahead rest) := by
  rcases Reader.attempt_bind_ok run with ⟨_, _, lambdaRun, ⟨⟩⟩ | ⟨fault, noLambda, run⟩
  · obtain ⟨opening, others, isWhole, _, derives⟩ := finds_lambda nested fits lambdaRun leads
    exact ⟨opening :: others, isWhole, derives⟩
  · rcases Reader.attempt_bind_ok run with ⟨_, _, enclosedRun, ⟨⟩⟩ | ⟨_, _, run⟩
    · simp (disch := decide) only [Grammar.enclosedLambda_eq, Reader.bind_eq_ok,
        Reader.expect_eq_ok] at enclosedRun
      obtain ⟨_, _, ⟨⟨⟩, _⟩, _, _, lambdaRun, closing, _, ⟨rfl, closes⟩, ⟨⟩⟩ := enclosedRun
      have noArrow : closing.kind ≠ .arrow := by simp [closes]
      have fitsInside : Fits parse (bound + 1) others := @Fits.behind _ _ _ [opening] fits
      obtain ⟨first, inner, rfl, reopens, derives⟩ :=
        finds_lambda nested fitsInside lambdaRun (.of_ne noArrow)
      refine ⟨opening :: (first :: inner ++ [closing]), by simp, .enclosed opens closes ?_ ?_⟩
      · exact (derives.start (.inr rfl)).whole (by simp [isWord, reopens])
          (endsUpTo_of_ends (by rw [ahead_cons, closes]; rfl) 4)
      · rintro _ word ⟨rfl, _⟩
        simp [reopens]
    · obtain ⟨inner, closing, rfl, closes, derives⟩ := finds_enclosed nested fits opens run
      refine ⟨opening :: (inner ++ [closing]), by simp, .enclosed opens closes derives ?_⟩
      -- In front of an arrow, one word would have been read as a parameter.
      rintro isArrow word rfl isWord
      obtain ⟨arrow, more, rfl, isKind⟩ := exists_cons_of_ahead isArrow (by decide)
      obtain ⟨depth, _, found, bodyRun⟩ := leads arrow more rfl isKind
      have enough := fits.enough
      simp only [singleton_append, length_cons] at enough
      have stableRun :=
        fits.stable more ⟨[opening, word, closing, arrow], by simp⟩ depth (by omega) found bodyRun
          bound (by omega)
      simp [Grammar.lambda, opens, Grammar.parameters, Reader.optional, isWord, Reader.itemsThen,
        Grammar.parameter, closes, isKind, stableRun] at noLambda

theorem finds_primary : Finds parse bound (Fits parse (bound + 1)) (.expr .primary)
      ((upTo parse bound).primary parse (bound + 1)) := by
  intro tokens value rest fits run leads
  cases tokens with
  | nil => cases run
  | cons opening =>
    cases opensSome : opening.kind.opens with
    | false =>
      obtain ⟨isRead, rfl⟩ := Grammar.literal_of_primary opensSome run
      exact ⟨[opening], rfl, .literal isRead⟩
    | true =>
      rw [Grammar.primary, peek_bind, ahead_cons] at run
      cases isKind : opening.kind with
      | openParen =>
        simp only [isKind] at run
        exact finds_parenthesis nested isKind fits run leads
      | openBracket =>
        simp (disch := decide) only [isKind, Grammar.list, bind_eq_ok, expect_eq_ok]
          at run
        obtain ⟨_, _, ⟨⟨⟩, _⟩, elements, _, listRun, ⟨⟩⟩ := run
        obtain ⟨inner, rfl, derives⟩ :=
          finds_list nested (fun _ _ => Fits.behind) (fun _ => trivial) fits.tail
            ((@Reader.optional_itemsUntil _ _ _ .square _ _).mp listRun)
        exact ⟨opening :: inner, rfl, .list isKind derives⟩
      | openBrace =>
        simp (disch := decide) only [isKind, Grammar.object, bind_eq_ok, expect_eq_ok]
          at run
        obtain ⟨_, _, ⟨⟨⟩, _⟩, _, _, listRun, ⟨⟩⟩ := run
        obtain ⟨inner, rfl, derives⟩ :=
          finds_list (finds_field nested) (fun _ _ => Fits.behind) (fun _ => trivial) fits.tail
            ((@Reader.optional_itemsUntil _ _ _ .curly _ _).mp listRun)
        exact ⟨opening :: inner, rfl, .object isKind derives⟩
      | _ => simp [isKind, Token.Kind.opens] at opensSome

theorem finds_arguments (fits : Fits parse (bound + 1) tokens)
    (run : (upTo parse bound).arguments (bound + 1) tokens = .ok (arguments, rest)) :
    ∃ opening inner, tokens = opening :: (inner ++ rest) ∧ opening.kind = .openParen ∧
      Derives parse none (.list .round (.expr .whole)) inner arguments (ahead rest) := by
  simp (disch := decide) only [Grammar.arguments, bind_eq_ok, expect_eq_ok] at run
  obtain ⟨opening, _, ⟨rfl, opens⟩, listRun⟩ := run
  obtain ⟨inner, rfl, derives⟩ :=
    finds_list nested (fun _ _ => Fits.behind) (fun _ => trivial) fits.tail
      ((@Reader.optional_itemsUntil _ _ _ .round _ _).mp listRun)
  exact ⟨opening, inner, rfl, opens, derives⟩

/-- A selector, a call or an index makes an operand longer. -/
theorem extends_access {level : Level} (isOperand : level.IsOperand)
    (fits : Fits parse (bound + 1) tokens)
    (run : (upTo parse bound).access? (bound + 1) left tokens = .ok (some longer, rest)) :
    Extends parse level left tokens longer rest := by
  rw [Grammar.access?, peek_bind] at run
  cases isKind : (ahead tokens).kind with
  | dot =>
    obtain ⟨dot, others, rfl, isDot⟩ := exists_cons_of_ahead isKind (by decide)
    simp (disch := simp [isDot]) only [isKind, take_bind, bind_eq_ok] at run
    obtain ⟨_, _, selectorRun, ⟨⟩⟩ := run
    obtain ⟨names, rfl, selects⟩ := selects_of_run selectorRun
    exact ⟨dot :: names, rfl, fun front base => .property isOperand base isDot selects⟩
  | safeDot =>
    obtain ⟨dot, others, rfl, isDot⟩ := exists_cons_of_ahead isKind (by decide)
    simp (disch := simp [isDot]) only [isKind, take_bind, bind_eq_ok,
      expect_eq_ok] at run
    obtain ⟨word, _, ⟨rfl, isWord⟩, ⟨⟩⟩ := run
    exact ⟨[dot, word], rfl, fun front base => .safe isOperand base isDot isWord⟩
  | openParen =>
    simp only [isKind, bind_eq_ok] at run
    obtain ⟨_, _, argumentsRun, ⟨⟩⟩ := run
    obtain ⟨opening, inner, rfl, opens, derives⟩ := finds_arguments nested fits argumentsRun
    exact ⟨opening :: inner, rfl, fun front base => .call isOperand base opens derives⟩
  | openBracket =>
    obtain ⟨opening, _, rfl, opens⟩ := exists_cons_of_ahead isKind (by decide)
    simp (disch := simp [opens]) only [isKind, take_bind, bind_eq_ok,
      expect_eq_ok] at run
    obtain ⟨_, _, placeRun, closing, _, ⟨rfl, closes⟩, ⟨⟩⟩ := run
    obtain ⟨inner, rfl, derives⟩ := nested _ _ _ fits.tail placeRun (.of_ne (by simp [closes]))
    exact ⟨opening :: (inner ++ [closing]), by simp, fun front base =>
      .index isOperand base opens closes derives⟩
  | _ =>
    simp only [isKind] at run
    cases run

/-! ## Matches -/

theorem finds_pattern :
    Finds parse bound (Fits parse bound) .pattern (upTo parse bound).matchPattern := by
  intro tokens pattern rest fits run leads
  simp (disch := decide) only [Grammar.matchPattern, peek_bind, take_word_eq_ok,
    bind_eq_ok, expect_eq_ok, pure_bind] at run
  obtain ⟨word, _, rfl, isVar, name, _, ⟨rfl, isWord⟩, run⟩ | ⟨notVar, value, _, valueRun, run⟩ :=
    run
  · obtain ⟨mark, _, rfl, isWhen, guard, _, guardRun, ⟨⟩⟩ | ⟨noGuard, ⟨⟩⟩ := run
    · obtain ⟨back, rfl, derives⟩ :=
        nested _ _ _ (@Fits.behind _ _ _ [word, name, mark] fits) guardRun leads
      exact ⟨word :: name :: mark :: back, rfl, .bindingWhen isVar isWord isWhen derives⟩
    · exact ⟨[word, name], rfl, .binding isVar isWord noGuard⟩
  · obtain ⟨mark, _, rfl, isWhen, _, _, guardRun, ⟨⟩⟩ | ⟨noGuard, ⟨⟩⟩ := run
    · have noArrow : mark.kind ≠ .arrow := by simp [(isWord_iff.mp isWhen).1]
      obtain ⟨front, rfl, base⟩ := nested _ _ _ fits valueRun (.of_ne noArrow)
      obtain ⟨back, rfl, derives⟩ := nested _ _ _ fits.beyond guardRun leads
      rw [ahead_append base.ne_nil] at notVar
      exact ⟨front ++ mark :: back, by simp, .matcherWhen notVar isWhen base derives⟩
    · obtain ⟨front, rfl, base⟩ := nested _ _ _ fits valueRun leads
      rw [ahead_append base.ne_nil] at notVar
      exact ⟨front, rfl, .matcher notVar noGuard base⟩

theorem finds_alternative :
    Finds parse bound (Fits parse bound) .alternative (upTo parse bound).matchCase := by
  intro tokens alt rest fits run leads
  simp (disch := decide) only [matchCase, peek_bind, take_word_eq_ok,
    bind_eq_ok, expect_eq_ok] at run
  obtain ⟨word, _, rfl, isCase, _, _, patternRun, arrow, others, ⟨rfl, isArrow⟩, result, _,
      resultRun, ⟨⟩⟩ |
    ⟨_, ⟨word, _, rfl, isElse, arrow, _, ⟨rfl, isArrow⟩, result, _, resultRun, ⟨⟩⟩ | ⟨_, ⟨⟩⟩⟩ := run
  · have leadsOn : Leads parse bound (arrow :: others) := by
      rintro _ _ ⟨⟩ _
      exact ⟨bound, Nat.le_refl bound, _, resultRun⟩
    obtain ⟨names, rfl, matched⟩ :=
      finds_pattern nested _ _ _ (@Fits.behind _ _ _ [word] fits) patternRun leadsOn
    obtain ⟨back, rfl, derives⟩ :=
      nested _ _ _ (@Fits.beyond _ _ _ (word :: names) _ fits) resultRun leads
    exact ⟨word :: (names ++ arrow :: back), by simp, .case isCase isArrow matched derives⟩
  · obtain ⟨back, rfl, derives⟩ :=
      nested _ _ _ (@Fits.behind _ _ _ [word, arrow] fits) resultRun leads
    exact ⟨word :: arrow :: back, rfl, .otherwise isElse isArrow derives⟩

theorem finds_alternatives (fits : Fits parse bound tokens)
    (run : (upTo parse bound).matchCases fuel tokens = .ok (cases, rest)) :
    ∃ front,
      tokens = front ++ rest ∧ Derives parse none .alternatives front cases (ahead rest) := by
  induction fuel generalizing tokens cases with
  | zero => cases run
  | succ fuel ih =>
    rw [matchCases] at run
    simp (disch := decide) only [↓accept_bind_eq_ok, bind_eq_ok, if_true,
      Bool.false_eq_true, if_false] at run
    obtain ⟨closing, _, rfl, closes, ⟨⟩⟩ | ⟨_, first, middle, firstRun, run⟩ := run
    · exact ⟨[closing], rfl, .noCases closes⟩
    · obtain ⟨comma, _, rfl, isComma, more, _, moreRun, ⟨⟩⟩ | ⟨noComma, more, _, moreRun, ⟨⟩⟩ := run
      · obtain ⟨front, rfl, base⟩ :=
          finds_alternative nested _ _ _ fits firstRun (.of_ne (by simp [isComma]))
        obtain ⟨back, rfl, derives⟩ := ih fits.beyond moreRun
        exact ⟨front ++ comma :: back, by simp,
          .separated base.kind_of_alternative isComma base derives⟩
      · have leadsNowhere : Leads parse bound middle := by
          rintro _ _ rfl isArrow
          cases fuel <;> simp [matchCases, matchCase, isArrow, isWord] at moreRun
        obtain ⟨front, rfl, base⟩ := finds_alternative nested _ _ _ fits firstRun leadsNowhere
        obtain ⟨back, rfl, derives⟩ := ih fits.behind moreRun
        rw [ahead_append derives.ne_nil] at noComma base
        exact ⟨front ++ back, by simp, .cases base.kind_of_alternative noComma base derives⟩

/-! ## Operands -/

theorem extends_plainSuffixes (fits : Fits parse (bound + 1) tokens)
    (run : wordSuffix?.plainSuffixes (upTo parse bound) (bound + 1) fuel left
      tokens = .ok (value, rest)) :
    Extends parse .plain left tokens value rest ∧ (ahead rest).endsPlain := by
  induction fuel generalizing left tokens with
  | zero => cases run
  | succ _ ih =>
    rw [wordSuffix?.plainSuffixes, bind_eq_ok] at run
    obtain ⟨found, _, accessRun, run⟩ := run
    cases found with
    | some =>
      have isExtended := extends_access nested (.inl rfl) fits accessRun
      obtain ⟨more, ends⟩ := ih (isExtended.fits fits) run
      exact ⟨isExtended.trans more, ends⟩
    | none =>
      obtain ⟨ends, rfl⟩ := access?_eq_none accessRun
      cases run
      exact ⟨.refl _ _ _, ends⟩

theorem finds_plainOperand (fits : Fits parse (bound + 1) tokens)
    (run : wordSuffix?.plainOperand (upTo parse bound) parse (bound + 1) tokens =
      .ok (value, rest))
    (leads : Leads parse bound rest) :
    ∃ front, tokens = front ++ rest ∧ Derives parse none (.expr .plain) front value (ahead rest) ∧
      (ahead rest).endsPlain := by
  rw [wordSuffix?.plainOperand, bind_eq_ok] at run
  obtain ⟨first, middle, firstRun, run⟩ := run
  have loopRun : Level.plain.loop parse bound (bound + 1) first middle = .ok (value, rest) := run
  obtain ⟨_, rfl, derives⟩ := finds_primary nested _ _ _ fits firstRun (leads.of_loop loopRun)
  obtain ⟨isExtended, ends⟩ := extends_plainSuffixes nested fits.behind run
  obtain ⟨whole, isWhole, derivesWhole⟩ := isExtended.derives (derives.start (.inl rfl))
  exact ⟨whole, isWhole, derivesWhole, ends⟩

variable (operand :
  Finds parse bound (Fits parse bound) (.expr (.layer 0)) (upTo parse bound).operand)

include operand

theorem extends_word (fits : Fits parse (bound + 1) tokens)
    (run : (upTo parse bound).wordSuffix? parse (bound + 1) left tokens =
      .ok (some longer, rest))
    (leads : Leads parse bound rest) :
    Extends parse (.layer 0) left tokens longer rest := by
  rw [wordSuffix?, peek_bind] at run
  by_cases isWord : (ahead tokens).kind = .word
  · obtain ⟨word, _, rfl, isKind⟩ := exists_cons_of_ahead isWord (by decide)
    simp only [ahead_cons, isKind, bne_self_eq_false, Bool.false_eq_true, if_false, beq_iff_eq]
      at run
    split at run
    · rename_i isAs
      simp (disch := simp [isKind]) only [take_bind, bind_eq_ok, peek_bind] at run
      obtain ⟨_, _, targetRun, run⟩ := run
      have isWordAs := isWord_iff.mpr ⟨isKind, isAs⟩
      split at run
      · rename_i opens
        obtain ⟨opening, _, rfl, _⟩ := exists_cons_of_ahead opens (by decide)
        obtain ⟨names, rfl, type⟩ :=
          finds_type _ _ _ _ trivial targetRun (@Leads.of_ne _ bound _ (by rw [opens]; decide))
        obtain ⟨_, _, optionsRun, ⟨⟩⟩ := bind_eq_ok.mp run
        obtain ⟨back, isInside, derives⟩ := nested _ _ _ fits.tail.behind optionsRun leads
        obtain ⟨_, inner, rfl⟩ := exists_cons_of_ne_nil derives.ne_nil
        obtain ⟨rfl, rfl⟩ := cons.inj isInside
        exact ⟨word :: (names ++ opening :: inner), by simp, fun front base =>
          .coercionWith base isWordAs type opens derives⟩
      · rename_i noOptions
        cases run
        obtain ⟨names, rfl, type⟩ := finds_type _ _ _ _ trivial targetRun leads
        exact ⟨word :: names, rfl, fun front base =>
          .coercion base isWordAs type (by simpa using noOptions)⟩
    · split at run
      · rename_i isMatch
        simp (disch := simp [isKind]) only [take_bind, bind_eq_ok, expect_eq_ok]
          at run
        obtain ⟨opening, _, ⟨rfl, opens⟩, cases, _, casesRun, run⟩ := run
        obtain ⟨inner, rfl, derives⟩ :=
          finds_alternatives nested (@Fits.behind _ _ _ [opening] fits.tail) casesRun
        split at run
        · cases run
        · rename_i notEmpty
          cases run
          exact ⟨word :: opening :: inner, rfl, fun front base =>
            .matching base (isWord_iff.mpr ⟨isKind, isMatch⟩) opens derives
              (by simpa using notEmpty)⟩
      · split at run
        · cases run
        · rename_i notAs notMatch calls
          rw [take_bind (by simp [isKind])] at run
          split at run
          · rename_i isTo
            obtain ⟨right, _, rightRun, ⟨⟩⟩ := bind_eq_ok.mp run
            obtain ⟨back, rfl, derives, ends⟩ :=
              finds_plainOperand nested (@Fits.behind _ _ _ [word] fits) rightRun leads
            exact ⟨word :: back, rfl, fun front base =>
              .infixCall base isKind notAs (by simpa using calls) (by simp [isTo]) derives ends⟩
          · rename_i notTo
            obtain ⟨_, _, rightRun, ⟨⟩⟩ := bind_eq_ok.mp run
            obtain ⟨back, rfl, derives⟩ := operand _ _ _ fits.tail rightRun leads
            exact ⟨word :: back, rfl, fun front base =>
              .infixCall base isKind notAs (by simpa using calls) (by simp [notTo]) derives
                (Grammar.ends_of_operand rightRun)⟩
  · simp only [isWord, bne_iff_ne, ne_eq] at run
    cases run

theorem extends_suffixes (fits : Fits parse (bound + 1) tokens)
    (run : (upTo parse bound).suffixes parse (bound + 1) fuel left tokens =
      .ok (value, rest)) (leads : Leads parse bound rest) :
    Extends parse (.layer 0) left tokens value rest := by
  induction fuel generalizing left tokens with
  | zero => cases run
  | succ fuel ih =>
    rw [Grammar.suffixes, bind_eq_ok] at run
    obtain ⟨found, middle, accessRun, run⟩ := run
    cases found with
    | some =>
      have isExtended := extends_access nested (.inr rfl) fits accessRun
      exact isExtended.trans (ih (isExtended.fits fits) run)
    | none =>
      obtain ⟨endsPlain, rfl⟩ := access?_eq_none accessRun
      simp only [bind_eq_ok] at run
      obtain ⟨found, middle, wordRun, run⟩ := run
      cases found with
      | some longer =>
        have loopRun : (Level.layer 0).loop parse bound fuel longer middle = .ok (value, rest) :=
          run
        have leadsOn : Leads parse bound middle := leads.of_loop loopRun
        have isExtended := extends_word nested operand fits wordRun leadsOn
        exact isExtended.trans (ih (isExtended.fits fits) run)
      | none =>
        obtain ⟨_, rfl⟩ := Grammar.wordSuffix?_eq_none wordRun endsPlain
        cases run
        exact .refl _ _ _

theorem finds_operand : Finds parse bound (Fits parse (bound + 1)) (.expr (.layer 0))
      ((upTo parse bound).operandLayer parse (bound + 1)) := by
  intro tokens value rest fits run leads
  rw [Grammar.operandLayer, bind_eq_ok] at run
  obtain ⟨first, middle, firstRun, run⟩ := run
  have loopRun : (Level.layer 0).loop parse bound (bound + 1) first middle = .ok (value, rest) :=
    run
  obtain ⟨_, rfl, derives⟩ := finds_primary nested _ _ _ fits firstRun (leads.of_loop loopRun)
  exact (extends_suffixes nested operand fits.behind run leads).derives (derives.start (.inr rfl))

/-! ## Chains and expressions -/

theorem finds_layer (rank : Nat) : Finds parse bound (Fits parse (bound + 1)) (.expr (.layer rank))
      ((upTo parse bound).layer parse (bound + 1) rank) := by
  induction rank with
  | zero => exact finds_operand nested operand
  | succ rank ih =>
    intro tokens value rest fits run leads
    rw [Grammar.layer, chain, bind_eq_ok] at run
    obtain ⟨first, middle, firstRun, run⟩ := run
    have loopRun :
        (Level.layer (rank + 1)).loop parse bound (bound + 1) first middle = .ok (value, rest) :=
      run
    obtain ⟨_, rfl, derives⟩ := ih _ _ _ fits firstRun (leads.of_loop loopRun)
    have ends := ends_of_layer firstRun rank (Nat.le_refl rank)
    exact (extends_chain ih fits.behind loopRun leads).derives (derives.rise ends)

theorem finds_expressionLayer : Finds parse bound (Fits parse (bound + 1)) (.expr .whole)
      ((upTo parse bound).expressionLayer parse (bound + 1)) := by
  intro tokens value rest fits run leads
  simp (disch := decide) only [Grammar.expressionLayer, peek_bind, take_word_eq_ok,
    bind_eq_ok, expect_eq_ok, Grammar.operatorLayers_eq_layer] at run
  obtain ⟨word, _, rfl, isIf, opening, _, ⟨rfl, opens⟩, _, _, conditionRun, closing, _,
      ⟨rfl, closes⟩, _, _, trueRun, ⟨otherwise, _, rfl, isElse, _, _, falseRun, ⟨⟩⟩ |
        ⟨_, ⟨⟩⟩⟩ | ⟨notIf, run⟩ := run
  · have noArrow : otherwise.kind ≠ .arrow := by simp [(isWord_iff.mp isElse).1]
    have fitsInside := @Fits.behind _ _ _ [opening] fits.tail
    obtain ⟨inner, rfl, inside⟩ := nested _ _ _ fitsInside conditionRun (.of_ne (by simp [closes]))
    obtain ⟨first, rfl, derivesTrue⟩ := nested _ _ _ fitsInside.beyond trueRun (.of_ne noArrow)
    obtain ⟨second, rfl, derivesFalse⟩ := nested _ _ _ fitsInside.beyond.beyond falseRun leads
    exact ⟨word :: opening :: (inner ++ closing :: (first ++ otherwise :: second)), by simp,
      .conditional isIf opens closes isElse inside derivesTrue derivesFalse⟩
  · obtain ⟨front, rfl, derives⟩ := finds_layer nested operand 4 _ _ _ fits run leads
    rw [ahead_append derives.ne_nil] at notIf
    exact ⟨front, rfl, .expression notIf derives (ends_of_layer run 4 (Nat.le_refl 4))⟩

end Nested

/-- What a grammar reads is derived, if it is deep enough. -/
theorem finds_upTo (bound : Nat) :
    Finds parse bound (Fits parse bound) (.expr .whole) (upTo parse bound).expression ∧
      Finds parse bound (Fits parse bound) (.expr (.layer 0))
        (upTo parse bound).operand := by
  induction bound with
  | zero => exact ⟨fun _ _ _ _ run => (by cases run), fun _ _ _ _ run => (by cases run)⟩
  | succ _ ih =>
    exact ⟨fun tokens value rest fits run leads =>
        finds_expressionLayer ih.1 ih.2 _ _ _ fits run leads.of_succ,
      fun tokens value rest fits run leads =>
        finds_operand ih.1 ih.2 _ _ _ fits run leads.of_succ⟩

/-! ## Reading and deriving -/

section Whole

variable {ending : Token} (isEnd : ending.kind = .finish)

include isEnd

/-- With a depth for every token, a deeper grammar reads the same. -/
theorem Grammar.expression_deeper (enough : front.length < bound) :
    (upTo parse bound).expression (front ++ [ending]) =
      (upTo parse (front.length + 1)).expression (front ++ [ending]) := by
  rcases expression_alike (fun _ _ _ => ⟨rfl, False.elim⟩) isEnd (Nat.lt_succ_self front.length)
      enough [] with ⟨_, _, _, _, firstReads, secondReads⟩ | ⟨_, _, firstRefuses, secondRefuses⟩
  · rw [firstReads, secondReads]
  · rw [firstRefuses, secondRefuses]

theorem fits_whole : Fits parse (front.length + 1) (front ++ [ending]) := by
  refine ⟨by simp, fun more isSuffix depth enough found run other otherEnough => ?_⟩
  rcases suffix_concat_iff.mp isSuffix with rfl | ⟨back, rfl, isBack⟩
  · cases depth <;> cases run
  · rw [length_append] at enough otherEnough
    rw [Grammar.expression_deeper isEnd enough] at run
    rwa [Grammar.expression_deeper isEnd otherEnough]

/-- An expression is read exactly from what it is derived from. -/
theorem Grammar.expression_iff_derives :
    (upTo parse (front.length + 1)).expression (front ++ [ending]) = .ok (value, [ending]) ↔
      Derives parse none (.expr .whole) front value ending := by
  constructor
  · intro run
    obtain ⟨_, isWhole, derives⟩ :=
      (finds_upTo (front.length + 1)).1 _ _ _ (fits_whole isEnd) run (.of_ne (by simp [isEnd]))
    rwa [← append_cancel_right isWhole] at derives
  · intro derives
    obtain ⟨least, reads⟩ := Filter.eventually_atTop.mp (derives.reads [ending] rfl)
    have run := reads (least + front.length + 1) (by omega)
    rwa [← Grammar.expression_deeper isEnd (Nat.lt_succ_of_le (Nat.le_add_left front.length least))]

theorem Derives.ofTokens (derives : Derives parse none (.expr .whole) front value ending) :
    Expr.ofTokens parse (front ++ [ending]) = .ok value := by
  rw [Expr.ofTokens, length_append, length_singleton,
    (Grammar.expression_iff_derives isEnd).mpr derives]
  simp [bind, Except.bind, isEnd, pure, Except.pure]

theorem Derives.of_ofTokens (noEnds : ∀ token ∈ front, token.kind ≠ .finish)
    (isRead : Expr.ofTokens parse (front ++ [ending]) = .ok value) :
    Derives parse none (.expr .whole) front value ending := by
  rw [Expr.ofTokens, length_append, except_bind_eq_ok] at isRead
  obtain ⟨⟨_, _⟩, run, isValue⟩ := isRead
  rcases Grammar.expression_alike (fun _ _ _ => ⟨rfl, False.elim⟩) isEnd
      (Nat.lt_succ_self front.length) (Nat.le_refl _) [] with
    ⟨_, left, isSuffix, _, reads, _⟩ | ⟨_, _, refuses, _⟩
  · obtain ⟨rfl, rfl⟩ := Prod.mk.inj (Except.ok.inj (run.symm.trans reads))
    cases left with
    | nil =>
      simp only [nil_append, isEnd] at isValue
      cases isValue
      exact (Grammar.expression_iff_derives isEnd).mp run
    | cons token => simp [noEnds token (isSuffix.subset mem_cons_self)] at isValue
  · cases run.symm.trans refuses

end Whole

end Weave
