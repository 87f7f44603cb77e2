import Weave.Expr.Parser

namespace Weave

/-!
# How readers run

What the primitive readers of tokens do with a token list, as equations.  Readers that are
made of them run by rewriting with these equations.
-/

/-- How the inside of a string literal is read. -/
abbrev TextParser := List Char → Except ParseFault Expr

/-- What succeeds in two parts succeeds in the first one and goes on from its value. -/
theorem except_bind_eq_ok {ε α β : Type} {first : Except ε α} {next : α → Except ε β} {found : β} :
    (first >>= next) = .ok found ↔ ∃ value, first = .ok value ∧ next value = .ok found := by
  cases first with
  | error fault | ok value => simp [bind, Except.bind]

/-- The token that is read next. -/
def ahead (tokens : List Token) : Token := tokens.headD ⟨.finish, "", .nowhere⟩

@[simp] theorem ahead_cons (token : Token) (rest : List Token) : ahead (token :: rest) = token :=
  rfl

/-- What is not the end is a token that can be taken. -/
theorem exists_cons_of_ahead (isKind : (ahead tokens).kind = kind) (notEnd : kind ≠ .finish) :
    ∃ token rest, tokens = token :: rest ∧ token.kind = kind := by
  cases tokens with
  | nil => exact absurd isKind.symm notEnd
  | cons token rest => exact ⟨token, rest, rfl, isKind⟩

namespace Reader

variable {tokens rest : List Token} {token : Token} {kind : Token.Kind}

@[simp] theorem run_pure (value : α) (tokens : List Token) :
    (pure value : Reader α) tokens = .ok (value, tokens) :=
  rfl

@[simp] theorem run_throw (fault : ParseFault) (tokens : List Token) :
    (throw fault : Reader α) tokens = .error fault :=
  rfl

@[simp] theorem run_liftM (result : Except ParseFault α) (tokens : List Token) :
    (liftM result : Reader α) tokens = result.map fun value => (value, tokens) := by
  cases result <;> rfl

/-- A sequence of two readers runs the second where the first stopped. -/
@[simp] theorem run_bind (reader : Reader α) (next : α → Reader β) (tokens : List Token) :
    (reader >>= next) tokens =
      match reader tokens with
      | .ok (value, rest) => next value rest
      | .error fault => .error fault := by
  change (reader tokens >>= fun result => next result.1 result.2) = _
  cases reader tokens <;> rfl

@[simp] theorem run_map (convert : α → β) (reader : Reader α) (tokens : List Token) :
    (convert <$> reader) tokens =
      match reader tokens with
      | .ok (value, rest) => .ok (convert value, rest)
      | .error fault => .error fault := by
  change (reader tokens >>= fun result => .ok (convert result.1, result.2)) = _
  cases reader tokens <;> rfl

@[simp] theorem run_peek (token : Token) (rest : List Token) :
    peek (token :: rest) = .ok (token, token :: rest) :=
  rfl

theorem peek_eq (tokens : List Token) : peek tokens = .ok (ahead tokens, tokens) := rfl

theorem peek_bind (next : Token → Reader α) (tokens : List Token) :
    (peek >>= next) tokens = next (ahead tokens) tokens :=
  rfl

/-- Every token but the last one is taken off. -/
@[simp] theorem run_take (token : Token) (rest : List Token) : take (token :: rest) =
      .ok (token, if token.kind = .finish then token :: rest else rest) := by
  by_cases last : token.kind = .finish
  · simp [take, last]
  · simp only [take, run_bind, run_peek, bne_iff_ne, ne_eq, last, not_false_eq_true, if_true,
      if_false]
    rfl

theorem take_bind (notEnd : token.kind ≠ .finish) (next : Token → Reader α) (rest : List Token) :
    (take >>= next) (token :: rest) = next token rest := by
  simp [notEnd]

/-- A token is taken when it is of the expected kind. -/
@[simp] theorem run_expect (kind : Token.Kind) (token : Token) (rest : List Token) :
    expect kind (token :: rest) =
      if token.kind = kind then
        .ok (token, if kind = .finish then token :: rest else rest)
      else .error (.expected kind token.kind token.position) := by
  by_cases same : token.kind = kind
  · simp [expect, same]
  · simp [expect, same]

/-- A token is taken when it is of the accepted kind, and otherwise left. -/
@[simp] theorem run_accept (kind : Token.Kind) (token : Token) (rest : List Token) :
    accept kind (token :: rest) =
      if token.kind = kind then
        .ok (true, if kind = .finish then token :: rest else rest)
      else .ok (false, token :: rest) := by
  by_cases same : token.kind = kind
  · simp [accept, same]
  · simp [accept, same]

/-- A refused attempt leaves the tokens where they were. -/
@[simp] theorem run_attempt (reader : Reader α) (tokens : List Token) : attempt reader tokens =
      match reader tokens with
      | .ok (value, rest) => .ok (some value, rest)
      | .error fault => if fault.isRecoverable then .ok (none, tokens) else .error fault :=
  rfl

/-! ## Where readers have come from -/

theorem accept_of_ne (isOther : (ahead tokens).kind ≠ kind) :
    accept kind tokens = .ok (false, tokens) := by
  simp [accept, peek_eq, isOther]

theorem expect_of_ne (isOther : (ahead tokens).kind ≠ kind) :
    expect kind tokens = .error (.expected kind (ahead tokens).kind (ahead tokens).position) := by
  simp [expect, peek_eq, isOther]

section Inversion

variable {next : α → Reader β} {found : β × List Token}

theorem bind_eq_ok : (reader >>= next) tokens = .ok found ↔
      ∃ value middle, reader tokens = .ok (value, middle) ∧ next value middle = .ok found := by
  rw [run_bind]
  cases reader tokens with
  | error => simp
  | ok =>
    refine ⟨fun run => ⟨_, _, rfl, run⟩, ?_⟩
    rintro ⟨_, _, ⟨⟩, run⟩
    exact run

theorem expect_eq_ok (notEnd : kind ≠ .finish) :
    expect kind tokens = .ok (token, rest) ↔ tokens = token :: rest ∧ token.kind = kind := by
  by_cases isKind : (ahead tokens).kind = kind
  · obtain ⟨first, others, rfl, isFirst⟩ := exists_cons_of_ahead isKind notEnd
    rw [run_expect]
    grind
  · rw [expect_of_ne isKind]
    grind [ahead_cons]

/-- A word that tells how to go on is taken, or another way is gone. -/
theorem take_word_eq_ok {word : String} {next : Token → Reader β} {other : Reader β} :
    (if (ahead tokens).isWord word = true then take >>= next else other) tokens = .ok found ↔
      (∃ token others, tokens = token :: others ∧ token.isWord word ∧
        next token others = .ok found) ∨
      (ahead tokens).isWord word = false ∧ other tokens = .ok found := by
  cases isWord : (ahead tokens).isWord word with
  | false => grind [ahead_cons]
  | true =>
    have isKind : (ahead tokens).kind = .word := by simp_all [Token.isWord]
    obtain ⟨token, others, rfl, _⟩ := exists_cons_of_ahead isKind (by decide)
    rw [if_pos rfl, take_bind (by simp_all)]
    grind [ahead_cons]

theorem accept_bind_eq_ok {next : Bool → Reader β} (notEnd : kind ≠ .finish) :
    (accept kind >>= next) tokens = .ok found ↔
      (∃ token others,
        tokens = token :: others ∧ token.kind = kind ∧ next true others = .ok found) ∨
      (ahead tokens).kind ≠ kind ∧ next false tokens = .ok found := by
  by_cases isKind : (ahead tokens).kind = kind
  · obtain ⟨token, others, rfl, _⟩ := exists_cons_of_ahead isKind notEnd
    rw [ahead_cons] at isKind
    simp [isKind, notEnd, and_assoc]
  · rw [run_bind, accept_of_ne isKind]
    refine ⟨fun run => .inr ⟨isKind, run⟩, ?_⟩
    rintro (⟨_, _, rfl, same, _⟩ | ⟨_, run⟩)
    · exact absurd same isKind
    · exact run

theorem attempt_bind_ok {reader : Reader α} {next : Option α → Reader β}
    (run : (attempt reader >>= next) tokens = .ok found) :
    (∃ value rest, reader tokens = .ok (value, rest) ∧ next (some value) rest = .ok found) ∨
      ∃ fault, reader tokens = .error fault ∧ next none tokens = .ok found := by
  rw [run_bind, run_attempt] at run
  cases isRead : reader tokens with
  | ok =>
    rw [isRead] at run
    exact .inl ⟨_, _, rfl, run⟩
  | error fault =>
    cases recovers : fault.isRecoverable with
    | true =>
      simp only [isRead, recovers] at run
      exact .inr ⟨fault, rfl, run⟩
    | false => simp [isRead, recovers] at run

/-- Whether a comma or the close is missed first makes no difference to what can be read. -/
theorem itemsUntil_eq_ok {close : Token.Kind} {item : Reader α} {bound : Nat}
    {found : List α × List Token} (notComma : close ≠ .comma) (notEnd : close ≠ .finish) :
    itemsUntil close item bound tokens = .ok found ↔
      itemsThen close item bound tokens = .ok found := by
  induction bound generalizing tokens found with
  | zero => exact Iff.rfl
  | succ _ ih =>
    rw [itemsUntil, itemsThen, bind_eq_ok, bind_eq_ok]
    refine exists_congr fun first => exists_congr fun middle => and_congr_right fun _ => ?_
    by_cases isClose : (ahead middle).kind = close
    · obtain ⟨token, others, rfl, isKind⟩ := exists_cons_of_ahead isClose notEnd
      simp [isKind, notComma, notEnd]
    · by_cases isComma : (ahead middle).kind = .comma
      · obtain ⟨token, others, rfl, isKind⟩ := exists_cons_of_ahead isComma (by decide)
        simp [isKind, notComma.symm, -bind_pure_comp, bind_eq_ok, -run_bind, ih, and_assoc]
      · rw [run_bind, run_bind, accept_of_ne isClose, accept_of_ne isComma]
        simp [expect_of_ne isComma, expect_of_ne isClose]

end Inversion

end Reader

end Weave
