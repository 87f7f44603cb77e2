import Weave.Proofs.Eval.Interpolation
import Weave.Proofs.Expr.Pasted

namespace Weave

open List Text

/-!
# Expressions in a text

The end of an expression in a text is found by its parentheses alone: the first one that closes
more than was opened ends it, also inside of a string or a comment of the expression.  So an
expression is read as a whole exactly if all parentheses among its characters are balanced.
-/

variable {ending other : Token} {expr : Expr} {source before : List Char} {left : Nat}

/-! ## The end of a source -/

theorem Expr.parse_append_lineFeed (isRead : parse source = .ok expr) :
    parse (source ++ ['\n']) = .ok expr := by
  obtain ⟨front, _, scanned, _, derives⟩ := parse_eq_ok_iff.mp isRead
  obtain ⟨_, _, other, isWhole, isOtherEnd, cuts⟩ :=
    (Token.cuts_of_scan scanned).append_lineFeed
  obtain ⟨rfl, _⟩ := append_inj' isWhole rfl
  exact parse_eq_ok_iff.mpr
    ⟨front, other, Token.scanAt_eq_ok_iff.mpr cuts, isOtherEnd,
      derives.before (by rw [isOtherEnd]; rfl)⟩

/-! ## Parentheses among characters -/

namespace Text

variable {depth : Nat} {text : List Char}

/-- The number of open parentheses behind a text, whatever they stand in, unless one is closed that
is not open. -/
def parensBehind : Nat → List Char → Option Nat
  | depth, [] => some depth
  | depth, character :: rest =>
    if character = '(' then parensBehind (depth + 1) rest
    else if character = ')' then if depth = 0 then none else parensBehind (depth - 1) rest
    else parensBehind depth rest

theorem parensBehind_append (depth : Nat) (text others : List Char) :
    parensBehind depth (text ++ others) =
      (parensBehind depth text).bind fun left => parensBehind left others := by
  induction text generalizing depth with
  | nil => rfl
  | cons _ _ ih =>
    simp only [cons_append, parensBehind]
    repeat' split
    all_goals first | rfl | exact ih _

/-- A text that closes too much does so somewhere for the first time. -/
theorem exists_closing (closesTooMuch : parensBehind depth text = none) :
    ∃ before behind, text = before ++ ')' :: behind ∧ parensBehind depth before = some 0 := by
  induction text generalizing depth with
  | nil => cases closesTooMuch
  | cons char rest ih =>
    have goesOn {next : Nat}
        (moves : ∀ others, parensBehind depth (char :: others) = parensBehind next others) :
        ∃ before behind,
          char :: rest = before ++ ')' :: behind ∧ parensBehind depth before = some 0 := by
      obtain ⟨before, behind, rfl, balanced⟩ := ih ((moves rest).symm.trans closesTooMuch)
      exact ⟨char :: before, behind, rfl, (moves before).trans balanced⟩
    by_cases isOpen : char = '('
    · exact goesOn fun others => by rw [parensBehind, if_pos isOpen]
    · by_cases isClose : char = ')'
      · cases depth with
        | zero => exact ⟨[], rest, by rw [isClose]; rfl, rfl⟩
        | succ left => exact @goesOn left fun others => by simp [parensBehind, isClose]
      · exact goesOn fun others => by rw [parensBehind, if_neg isOpen, if_neg isClose]

end Text

/-- A character that does not close more than is open is passed over. -/
theorem closeParens_cons (goesOn : parensBehind depth (first :: others) = some left) :
    ∃ next, parensBehind next others = some left ∧
      ∀ rest, closeParens (depth + 1) (first :: rest) =
        (closeParens (next + 1) rest).map fun (inner, behind) => (first :: inner, behind) := by
  rw [parensBehind] at goesOn
  split at goesOn
  · rename_i isOpen
    exact ⟨depth + 1, goesOn, fun rest => by simp [closeParens, isOpen]⟩
  · rename_i notOpen
    split at goesOn
    · rename_i isClose
      cases depth with
      | zero => cases goesOn
      | succ left => exact ⟨left, goesOn, fun rest => by simp [closeParens, isClose]⟩
    · rename_i notClose
      exact ⟨depth, goesOn, fun rest => by simp [closeParens, notOpen, notClose]⟩

theorem closeParens_of_parensBehind {depth : Nat} {text : List Char}
    (balanced : parensBehind depth text = some 0) (rest : List Char) :
    closeParens (depth + 1) (text ++ ')' :: rest) = some (text, rest) := by
  induction text generalizing depth with
  | nil =>
    obtain rfl : depth = 0 := Option.some.inj balanced
    rfl
  | cons _ _ ih =>
    rw [cons_append]
    obtain ⟨_, left, passes⟩ := closeParens_cons balanced
    rw [passes, ih left]
    rfl

/-- A text that never closes more than it opens has no end. -/
theorem closeParens_eq_none (goesOn : parensBehind depth text = some left) :
    closeParens (depth + 1) text = none := by
  induction text generalizing depth with
  | nil => rfl
  | cons _ _ ih =>
    obtain ⟨_, rest, passes⟩ := closeParens_cons goesOn
    rw [passes, ih rest]
    rfl

namespace Expr

/-! ## Embedded expressions -/

/-- A text that consists of an expression, with a line feed behind it. -/
def embedding (source : List Char) : List Char := interpolationMark ++ (source ++ ['\n', ')'])

/-- What stands in front of the first parenthesis that closes too much is an expression. -/
theorem interpolationParts_mark (balanced : parensBehind 0 before = some 0)
    (behind : List Char) (fuel : Nat) :
    interpolationParts parse (fuel + 1) (interpolationMark ++ (before ++ ')' :: behind)) =
      (do
        let embedded ← parse before
        let parts ← interpolationParts parse fuel behind
        return embedded :: parts) := by
  have cut :
      cutAt? interpolationMark (interpolationMark ++ (before ++ ')' :: behind)) =
        some ([], before ++ ')' :: behind) := by
    rfl
  rw [interpolationParts, cut]
  simp only [closeParens_of_parensBehind balanced behind]
  rfl

theorem interpolationParts_ne_nil (isRead : interpolationParts parse fuel content = .ok parts)
    (notEmpty : content ≠ []) :
    parts ≠ [] := by
  cases fuel with
  | zero => cases isRead
  | succ =>
    rw [interpolationParts] at isRead
    split at isRead
    · cases isRead
      simp [notEmpty]
    · split at isRead
      · cases isRead
      · obtain ⟨_, _, isRest⟩ := except_bind_eq_ok.mp isRead
        obtain ⟨_, _, isWhole⟩ := except_bind_eq_ok.mp isRest
        cases isWhole
        simp

/-- A parenthesis that closes too much ends the expression, and the rest of its text is read as a
text again. -/
theorem parseInterpolated_cut {before : List Char} (balanced : parensBehind 0 before = some 0)
    (behind : List Char) :
    parseInterpolated (embedding (before ++ ')' :: behind)) =
      (do
        let embedded ← parse before
        let parts ←
          interpolationParts parse (embedding (before ++ ')' :: behind)).length
            (behind ++ ['\n', ')'])
        return .template (embedded :: parts)) := by
  have isWhole :
      embedding (before ++ ')' :: behind) =
        interpolationMark ++ (before ++ ')' :: (behind ++ ['\n', ')'])) := by
    simp [embedding]
  rw [parseInterpolated_eq, interpolated, isWhole, interpolationParts_mark balanced]
  cases parse before with
  | error => rfl
  | ok embedded =>
    cases isRead : interpolationParts parse
        (interpolationMark ++ (before ++ ')' :: (behind ++ ['\n', ')']))).length
        (behind ++ ['\n', ')']) with
    | error => rfl
    | ok parts =>
      have notNil := interpolationParts_ne_nil isRead (by simp)
      cases parts with
      | nil => exact absurd rfl notNil
      | cons => cases embedded <;> rfl

/-- A parenthesis that is left open is closed by the one behind the expression, and the text does
not end. -/
theorem parseInterpolated_open (isOpen : parensBehind 0 source = some (left + 1)) :
    parseInterpolated (embedding source) = .error .unclosedInterpolation := by
  have goesOn : parensBehind 0 (source ++ ['\n', ')']) = some left := by
    rw [parensBehind_append, isOpen]
    rfl
  have cut :
      cutAt? interpolationMark (embedding source) = some ([], source ++ ['\n', ')']) := by
    rfl
  rw [parseInterpolated_eq, interpolated, interpolationParts, cut]
  simp only [closeParens_eq_none goesOn]
  rfl

theorem parseInterpolated_whole (isRead : parse source = .ok expr)
    (balanced : parensBehind 0 source = some 0) :
    (∃ value, expr = .text value) ∧ parseInterpolated (embedding source) = .ok expr ∨
      parseInterpolated (embedding source) = .ok (.template [expr]) := by
  have balancedLine : parensBehind 0 (source ++ ['\n']) = some 0 := by
    rw [parensBehind_append, balanced]
    rfl
  have isWhole : embedding source = interpolationMark ++ (source ++ ['\n'] ++ ')' :: []) := by
    simp [embedding]
  have onlyPart :
      interpolationParts parse ((embedding source).length + 1) (embedding source) = .ok [expr] := by
    rw [isWhole, interpolationParts_mark balancedLine, parse_append_lineFeed isRead]
    rfl
  rw [parseInterpolated_eq, interpolated, onlyPart]
  cases expr with
  | text value => exact .inl ⟨⟨value, rfl⟩, rfl⟩
  | _ => exact .inr rfl

/-- The only part of a text is written as the value of its expression is. -/
theorem eval_embedded (isWritten : expr.IsWritten) (setting : Setting) (depth : Nat) (ctx : Context)
    (isWhole : (∃ value, expr = .text value) ∧ whole = expr ∨ whole = .template [expr]) :
    (Engine.upTo setting (depth + 2)).eval ctx whole =
      (do
        let value ← (Engine.upTo setting (depth + 1)).eval ctx expr
        let text ← (value.interpolated : Except Fault String)
        return .text text) := by
  rcases isWhole with ⟨⟨value, rfl⟩, rfl⟩ | rfl
  · have isPlain := isWritten.here
    rw [Engine.keepsPlainTexts setting (depth + 1) ctx value isPlain,
      Engine.keepsPlainTexts setting depth ctx value isPlain]
    rfl
  · change Eval.step (Engine.upTo setting (depth + 1)) ctx (.template [expr]) = _
    rw [Eval.step_template, Eval.spelled_cons]
    have nothing : Eval.spelled (Engine.upTo setting (depth + 1)) ctx [] = pure [] := rfl
    simp only [nothing, bind_assoc, pure_bind, append_nil, String.ofList_toList]

/-- An expression in a text is read as the same expression, and written as its value is, if its
parentheses are balanced; if one is left open the text does not end; and if one closes too much only
what stands in front of it is read, and the rest as a text again.  It makes no difference whether a
parenthesis stands in a string or in a comment. -/
theorem parseInterpolated_embedding {source : List Char} {expr : Expr}
    (isRead : parse source = .ok expr) : (Text.parensBehind 0 source = some 0 →
      ∃ whole, parseInterpolated (embedding source) = .ok whole ∧
        ∀ setting depth ctx,
          (Engine.upTo setting (depth + 2)).eval ctx whole =
            (do
              let value ← (Engine.upTo setting (depth + 1)).eval ctx expr
              let text ← (value.interpolated : Except Fault String)
              return .text text)) ∧
      (∀ left, Text.parensBehind 0 source = some (left + 1) →
        parseInterpolated (embedding source) = .error .unclosedInterpolation) ∧
      (Text.parensBehind 0 source = none →
        ∃ before behind,
          source = before ++ ')' :: behind ∧ Text.parensBehind 0 before = some 0 ∧
            parseInterpolated (embedding source) =
              (do
                let embedded ← parse before
                let parts ←
                  interpolationParts parse (embedding source).length (behind ++ ['\n', ')'])
                return .template (embedded :: parts))) := by
  refine ⟨fun balanced => ?_, fun left isOpen => ?_, fun closesTooMuch => ?_⟩
  · have isWritten := isWritten_of_parse isRead
    rcases parseInterpolated_whole isRead balanced with ⟨isText, isWhole⟩ | isWhole
    · exact ⟨_, isWhole, fun setting depth ctx =>
        eval_embedded isWritten setting depth ctx (.inl ⟨isText, rfl⟩)⟩
    · exact ⟨_, isWhole, fun setting depth ctx =>
        eval_embedded isWritten setting depth ctx (.inr rfl)⟩
  · exact parseInterpolated_open isOpen
  · obtain ⟨before, behind, rfl, balanced⟩ := Text.exists_closing closesTooMuch
    exact ⟨before, behind, rfl, balanced, parseInterpolated_cut balanced behind⟩

/-- The parenthesis in a string is taken for the end of the expression, of which only a quote is
left. -/
theorem parseInterpolated_embedding_string : parse "\")\"".toList = .ok (.text ")") ∧
      parseInterpolated "$(\")\"\n)".toList = .error (.unexpectedCharacter ⟨1, 1⟩) := by
  have isRead : parse "\")\"".toList = .ok (.text ")") := by cbv
  have isFault : parse ['"'] = .error (.unexpectedCharacter ⟨1, 1⟩) := by cbv
  refine ⟨isRead, ?_⟩
  obtain ⟨before, behind, isWhole, _, isCut⟩ := (parseInterpolated_embedding isRead).2.2 rfl
  -- No other parenthesis stands in the text.
  obtain ⟨rfl, rfl⟩ : before = ['"'] ∧ behind = ['"'] := by
    rcases before with _ | ⟨first, _ | ⟨second, _ | ⟨third, rest⟩⟩⟩
    all_goals simp at isWhole
    exact ⟨by rw [isWhole.1], isWhole.2.symm⟩
  rw [isFault] at isCut
  exact isCut

end Expr

end Weave
