import Weave.Proofs.Expr.Places
import Weave.Proofs.Outcome.Leaves

namespace Weave

/-!
# Literals that cannot be read

A literal with a broken escape stands for no text.  Reading gives up at once where it comes upon
one: unlike every other fault of a source, this one leaves no room for another attempt.
-/

variable {text : List Char} {token : Token}

/-- The token is a string literal of a part of the text. -/
def Token.IsLiteralOf (text : List Char) (token : Token) : Prop :=
  ∃ part tokens,
    part <:+: text ∧ scan part = .ok tokens ∧ token ∈ tokens ∧ token.kind = .string

/-- A literal of the text cannot be read, or one of an interpolation in a literal cannot. -/
inductive HoldsUnreadable : List Char → Prop
  | literal {text : List Char} {token : Token} (isLiteral : token.IsLiteralOf text)
      (noValue : Text.Escape.unquote token.lexeme = none) :
      HoldsUnreadable text
  | embedded {text inner : List Char} {token : Token}
      (isLiteral : token.IsLiteralOf text)
      (hasValue : Text.Escape.unquote token.lexeme = some value)
      (embeds : interpolationMark ++ inner ++ [')'] <:+: value.toList)
      (holds : HoldsUnreadable inner) :
      HoldsUnreadable text

theorem Token.IsLiteralOf.within (isLiteral : token.IsLiteralOf part) (isPart : part <:+: text) :
    token.IsLiteralOf text := by
  obtain ⟨smaller, tokens, isSmaller, scanned⟩ := isLiteral
  exact ⟨smaller, tokens, isSmaller.trans isPart, scanned⟩

theorem HoldsUnreadable.within (holds : HoldsUnreadable part) (isPart : part <:+: text) :
    HoldsUnreadable text := by
  cases holds with
  | literal isLiteral noValue => exact .literal (isLiteral.within isPart) noValue
  | embedded isLiteral hasValue embeds holds =>
    exact .embedded (isLiteral.within isPart) hasValue embeds holds

/-! ## Strings -/

section Strings

variable (parse : TextParser)

/-- The text has an interpolation in which reading comes upon an unreadable literal. -/
def EmbedsRefused (content : List Char) : Prop :=
  ∃ inner, interpolationMark ++ inner ++ [')'] <:+: content ∧
    parse inner = .error .unreadableEscape

theorem interpolationParts_concludes (fuel : Nat) (content : List Char) :
    Concludes (fun fault => fault = .unreadableEscape → EmbedsRefused parse content)
      (fun _ => True) (interpolationParts parse fuel content) := by
  induction fuel generalizing content with
  | zero => exact .error fun isFault => by cases isFault
  | succ _ ih =>
    rw [interpolationParts]
    cases cut : Text.cutAt? interpolationMark content with
    | none => exact .ok trivial
    | some found =>
      obtain ⟨before, opened⟩ := found
      dsimp only
      cases closed : closeParens 1 opened with
      | none => exact .error fun isFault => by cases isFault
      | some pair =>
        obtain ⟨inner, rest⟩ := pair
        have isWhole : content = before ++ interpolationMark ++ (inner ++ ')' :: rest) := by
          rw [← eq_append_of_closeParens closed]
          exact Text.eq_append_of_cutAt? cut
        have isRest : rest <:+: content :=
          ⟨before ++ interpolationMark ++ inner ++ [')'], [], by simp [isWhole]⟩
        refine .bind ⟨.any _, fun fault isRefused isFault => ?_⟩ fun embedded _ => ?_
        · exact ⟨inner, ⟨before, rest, by simp [isWhole]⟩, isFault ▸ isRefused⟩
        · refine .bind ((ih rest).imp (fun fault among isFault => ?_)
            fun _ holds => holds) fun _ _ => .ok trivial
          obtain ⟨further, embeds, isRefused⟩ := among isFault
          exact ⟨further, embeds.trans isRest, isRefused⟩

/-- A literal is unreadable for its own escapes or for a literal in one of its interpolations. -/
theorem stringLiteral_concludes (lexeme : String) : Concludes (fun fault =>
        fault = .unreadableEscape →
          Text.Escape.unquote lexeme = none ∨
            ∃ value, Text.Escape.unquote lexeme = some value ∧ EmbedsRefused parse value.toList)
      (fun _ => True) (stringLiteral parse lexeme) := by
  rw [stringLiteral]
  cases Text.Escape.unquote lexeme with
  | none => exact .error fun _ => .inl rfl
  | some value =>
    dsimp only
    split
    · refine .bind ((interpolationParts_concludes parse _ _).imp (fun fault embeds isFault => ?_)
        fun _ holds => holds) fun parts _ => ?_
      · exact .inr ⟨value, rfl, embeds isFault⟩
      · split <;> exact .ok trivial
    · exact .ok trivial

end Strings

/-! ## Sources -/

namespace Expr

theorem holdsUnreadable_of_parseWithin
    (refused : parseWithin depth text = .error .unreadableEscape) :
    HoldsUnreadable text := by
  induction depth generalizing text with
  | zero => cases refused
  | succ _ ih =>
    rw [parseWithin] at refused
    cases scanned : Token.scan text with
    | error =>
      rw [scanned] at refused
      cases refused
      rcases Token.exists_position_of_scanFrom_error [] scanned with impossible | ⟨_, _, none⟩
      · cases impossible
      · cases none
    | ok =>
      rw [scanned] at refused
      obtain ⟨_, _, rfl, isEnd, _⟩ := (Token.cuts_of_scan scanned).exists_ending
      obtain ⟨_, refuses, _⟩ := Relocation.refuses_map id isEnd refused
      cases refuses with
      | blamed _ blame isFault => cases blame <;> cases isFault
      | noCases isFault => cases isFault
      | @inside token _ fits isString isRefused =>
        have mem := fits.1
        have isLiteral : token.IsLiteralOf text :=
          ⟨text, _, List.infix_rfl, scanned, mem, isString⟩
        rcases (stringLiteral_concludes _ token.lexeme).raises _ isRefused rfl with
          noValue | ⟨value, hasValue, inner, embeds, innerRefused⟩
        · exact .literal isLiteral noValue
        · exact .embedded isLiteral hasValue embeds (ih innerRefused)

/-- A text that begins with an unreadable literal is refused for it. -/
theorem parse_of_unreadable (scanned : Token.scan text = .ok (token :: others))
    (isString : token.kind = .string) (noValue : Text.Escape.unquote token.lexeme = none) :
    parse text = .error .unreadableEscape := by
  have notIf : token.isWord "if" = false := by simp [Token.isWord, isString]
  have notRead : stringLiteral parse token.lexeme = .error .unreadableEscape := by
    rw [stringLiteral, noValue]
  have primary (grammar : Grammar) (bound : Nat) :
      grammar.primary parse bound (token :: others) = .error .unreadableEscape := by
    simp [Grammar.primary, Grammar.string, isString, notRead, Except.map]
  -- Every layer begins with a primary expression.
  have expr (grammar : Grammar) (bound : Nat) :
      grammar.expressionLayer parse bound (token :: others) = .error .unreadableEscape := by
    simp [Grammar.expressionLayer, notIf, Grammar.operatorLayers, chain, Grammar.operandLayer,
      primary]
  rw [parse_eq, scanned]
  change ofTokens parse (token :: others) = _
  simp only [ofTokens, List.length_cons, Grammar.upTo, Grammar.step, expr]
  rfl

end Expr

end Weave
