import Weave.Proofs.Expr.Pasted
import Weave.Proofs.Grammar.Written

namespace Weave

open List

/-!
# Where the names and the faults of a text stand

The names of an expression stand where tokens of its text do, or nowhere, unless they come from the
inside of a string.  A text that is refused is refused in the same way wherever it stands.
-/

/-! ## Places of a text -/

variable {text : List Char} {tokens : List Token} {fault : ParseFault}

/-- The position is one of a text: behind something that the text starts with. -/
def Position.IsOf (text : List Char) (position : Position) : Prop :=
  ∃ before after, text = before ++ after ∧ position = .behind before

/-- The token stands in a text where it says. -/
def Token.IsOf (text : List Char) (token : Token) : Prop :=
  ∃ before after,
    text = before ++ (token.lexeme.toList ++ after) ∧ token.position = .behind before

/-- The places at which a fault points are places of a text. -/
def ParseFault.IsOf (text : List Char) (fault : ParseFault) : Prop :=
  ∀ position, fault.position? = some position → position.IsOf text

namespace Token

theorem IsOf.position {token : Token} (isOf : token.IsOf text) : token.position.IsOf text := by
  obtain ⟨before, after, isText, isBehind⟩ := isOf
  exact ⟨before, token.lexeme.toList ++ after, isText, isBehind⟩

/-- In a longer text, a token stands where the shorter text puts it. -/
theorem IsOf.within {token : Token} (isOf : token.IsOf text) (lead tail : List Char) :
    (token.moved (Position.behind lead).beyond).IsOf (lead ++ text ++ tail) := by
  obtain ⟨before, after, rfl, isBehind⟩ := isOf
  refine ⟨lead ++ before, after ++ tail, by simp [moved], ?_⟩
  rw [moved, isBehind, ← Position.behind_append]

/-- Cutting a source from behind a text that it starts with gives tokens of the source. -/
theorem isOf_of_cuts {position : Position} (cuts : Cuts position text tokens) (before : List Char)
    (isBehind : position = .behind before) :
    ∀ token ∈ tokens, token.IsOf (before ++ text) := by
  induction cuts generalizing before with
  | finish =>
    intro token mem
    obtain rfl := mem_singleton.mp mem
    exact ⟨before, [], by simp, isBehind⟩
  | @gap position skipped _ _ _ _ ih =>
    have moved : position.advance skipped = .behind (before ++ skipped) := by
      rw [isBehind, Position.advance_behind]
    rw [← append_assoc]
    exact ih (before ++ skipped) moved
  | @lexeme position _ lexeme rest _ _ _ ih =>
    have moved : position.advance lexeme = .behind (before ++ lexeme) := by
      rw [isBehind, Position.advance_behind]
    refine forall_mem_cons.mpr ⟨⟨before, rest, by simp, isBehind⟩, ?_⟩
    rw [← append_assoc]
    exact ih (before ++ lexeme) moved

theorem isOf_of_scan (scanned : scan text = .ok tokens) : ∀ token ∈ tokens, token.IsOf text :=
  isOf_of_cuts (cuts_of_scan scanned) [] rfl

/-- A scan from behind a text that a source starts with is refused at a place of the source. -/
theorem exists_position_of_scanFrom_error (before : List Char)
    (refused : scanFrom fuel (.behind before) text = .error fault) :
    fault = .exhausted ∨
      ∃ position, position.IsOf (before ++ text) ∧ fault.position? = some position := by
  induction fuel generalizing before text with
  | zero =>
    cases text with
    | nil => cases refused
    | cons =>
      cases refused
      exact .inl rfl
  | succ fuel ih =>
    cases text with
    | nil => cases refused
    | cons first rest =>
      rw [scanFrom] at refused
      cases cut : piece (first :: rest) with
      | error refusal =>
        simp only [cut, Except.error.injEq] at refused
        obtain rfl := refused
        refine .inr ⟨.behind before, ⟨before, first :: rest, rfl, rfl⟩, ?_⟩
        cases refusal <;> rfl
      | ok found =>
        obtain ⟨front, left⟩ := found
        obtain ⟨isText, _⟩ := piece_eq_ok cut
        rw [isText, ← append_assoc]
        cases front with
        | gap skipped =>
          simp only [cut, Position.advance_behind] at refused
          exact ih (before ++ skipped) refused
        | lexeme _ lexeme =>
          simp only [cut, Position.advance_behind] at refused
          cases others : scanFrom fuel (.behind (before ++ lexeme)) left with
          | ok => simp [others] at refused
          | error =>
            simp only [others, Except.error.injEq] at refused
            obtain rfl := refused
            exact ih (before ++ lexeme) others

end Token

/-! ## Names -/

/-- The tokens of a list. -/
def Token.Stock.ofTokens (tokens : List Token) : Token.Stock where
  has token := token ∈ tokens

namespace Expr

/-- The expression is a part of what one of the strings is read as. -/
def IsInside (tokens : List Token) (part : Expr) : Prop :=
  ∃ token ∈ tokens, token.kind = .string ∧
    ∃ whole, stringLiteral parse token.lexeme = .ok whole ∧ part.IsPartOf whole

/-- If the expression is a name, it is made of one of the tokens or comes from the inside of a
string. -/
def IsMadeOf (tokens : List Token) (part : Expr) : Prop :=
  ∀ word position, part = .name word position →
    (Token.Stock.ofTokens tokens).Names word position ∨ part.IsInside tokens

theorem gives_isMadeOf (tokens : List Token) :
    (Token.Stock.ofTokens tokens).Gives parse (IsMadeOf tokens) where
  unlabelled expr isPlain := by
    rintro _ _ rfl
    cases isPlain
  name word position names := by
    rintro _ _ ⟨⟩
    exact .inl names
  placeholder _ _ _ := nofun
  key _ _ := nofun
  lambda _ _ _ := nofun
  matching _ _ _ := nofun
  string token whole mem isString isRead := by
    have isWritten := isWritten_stringLiteral (fun _ _ => isWritten_of_parse) isRead
    refine (isWritten.areParts fun _ inWhole => inWhole).imp fun part isPart _ _ _ => ?_
    exact .inr ⟨token, mem, isString, whole, isRead, isPart⟩

/-- Every name of an expression is made of a token of its text or comes from the inside of one of
its strings. -/
theorem all_isMadeOf {expr : Expr} (scanned : Token.scan text = .ok tokens)
    (isRead : parse text = .ok expr) :
    expr.All (IsMadeOf tokens) := by
  rw [parse_eq, scanned] at isRead
  obtain ⟨_, _, rfl, isEnd, noEnds⟩ := (Token.cuts_of_scan scanned).exists_ending
  exact (gives_isMadeOf _).allAt (.of_ofTokens isEnd noEnds isRead) fun _ => mem_append_left _

/-! ## Faults -/

/-- Read an expression where it stands in a source. -/
def parseAt (origin : Position) (text : List Char) : Except ParseFault Expr := do
  let tokens ← Token.scanAt origin text
  ofTokens parse tokens

/-- The fault is one of the inside of a string of a text. -/
def RefusesInside (text : List Char) (fault : ParseFault) : Prop :=
  ∃ token : Token, token.IsOf text ∧ token.kind = .string ∧
    stringLiteral parse token.lexeme = .error fault

/-- A text that is refused at one of its places is refused there wherever it stands; a fault of the
inside of a string stays as it is. -/
theorem parseAt_of_refused (refused : parse text = .error fault) (origin : Position) :
    (fault.IsOf text ∧ parseAt origin text = .error (fault.moved origin.beyond)) ∨
      (RefusesInside text fault ∧ parseAt origin text = .error fault) := by
  have moved := Token.scanFrom_origin origin text
  rw [parse_eq] at refused
  rw [parseAt, Token.scanAt, moved]
  cases scanned : Token.scan text with
  | error =>
    rw [scanned] at refused
    cases refused
    refine .inl ⟨fun position isThere => ?_, rfl⟩
    rcases Token.exists_position_of_scanFrom_error [] scanned with rfl | ⟨other, isOf, isOther⟩
    · cases isThere
    · exact Option.some.inj (isOther.symm.trans isThere) ▸ isOf
  | ok =>
    rw [scanned] at refused
    obtain ⟨_, _, rfl, isEnd, _⟩ := (Token.cuts_of_scan scanned).exists_ending
    have areOf := Token.isOf_of_scan scanned
    obtain ⟨_, refuses, isRefused⟩ := Relocation.refuses_map origin.beyond isEnd refused
    cases refuses with
    | @blamed token _ fits blame isFault isOther =>
      obtain ⟨mem, rfl⟩ := fits
      refine .inl ⟨fun position isThere => ?_, isRefused.trans ?_⟩
      · have isPlace : token.position = position := by
          rw [isFault] at isThere
          cases blame <;> first | exact Option.some.inj isThere | cases isThere
        exact isPlace ▸ (areOf token mem).position
      · rw [isFault, isOther]
        cases blame <;> rfl
    | noCases isFault isOther =>
      obtain rfl := isFault
      exact .inl ⟨by rintro _ ⟨⟩, isRefused.trans (by rw [isOther]; rfl)⟩
    | @inside token _ fits isString isFault same =>
      exact .inr ⟨⟨token, areOf token fits.1, isString, isFault⟩, same ▸ isRefused⟩

end Expr

end Weave
