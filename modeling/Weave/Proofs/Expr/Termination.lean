import Mathlib
import Weave.Proofs.Grammar.Progress
import Weave.Proofs.Text.Escape
import Weave.Proofs.Text.Search
import Weave.Proofs.Token.Pieces

open List

namespace Weave

/-!
# Reading an expression ends

What is nested in a string literal is cut out of the characters that the literal stands for.  These
can be more characters than the literal has, but not more ASCII characters, and the marks of the
interpolation are lost.  So the number of ASCII characters bounds the depth of the interpolations,
and an expression is read as if there were no bound at all.

Inside one source, every reader of an expression leaves the mark of the end where it is, takes at
least one token, and never asks for what would stand behind the end.
-/

open Text (asciiCount)

/-! ## Strings -/

/-- The closing parenthesis is taken away and nothing else. -/
theorem eq_append_of_closeParens {depth : Nat} {text inner rest : List Char}
    (closed : closeParens depth text = some (inner, rest)) :
    text = inner ++ ')' :: rest := by
  induction text generalizing depth inner with
  | nil => cases closed
  | cons _ _ ih =>
    rw [closeParens] at closed
    split at closed
    · rename_i isClose
      obtain ⟨rfl, rfl⟩ := Prod.mk.inj (Option.some.inj closed)
      simp only [Bool.and_eq_true, decide_eq_true_eq] at isClose
      rw [isClose.1, nil_append]
    · simp only [Option.map_eq_some_iff, Prod.exists] at closed
      obtain ⟨_, _, closedRest, rfl, rfl⟩ := closed
      rw [ih closedRest, cons_append]

section Strings

variable {firstParse secondParse : TextParser}

/-- What is nested in a text has fewer ASCII characters, at least by the marks. -/
theorem settlesAlike_interpolationParts {content : List Char} (nested :
      ∀ inner, asciiCount inner < asciiCount content →
        SettlesAlike (firstParse inner) (secondParse inner))
    (enough : content.length < fuel) :
    SettlesAlike (interpolationParts firstParse fuel content)
      (interpolationParts secondParse fuel content) := by
  induction fuel generalizing content with
  | zero => exact absurd enough (Nat.not_lt_zero _)
  | succ _ ih =>
    simp only [interpolationParts]
    cases cut : Text.cutAt? interpolationMark content with
    | none => exact .ok _
    | some found =>
      obtain ⟨before, opened⟩ := found
      simp only
      cases closed : closeParens 1 opened with
      | none => exact .error nofun
      | some pair =>
        obtain ⟨inner, rest⟩ := pair
        have isWhole : content = before ++ interpolationMark ++ (inner ++ ')' :: rest) := by
          rw [← eq_append_of_closeParens closed]
          exact Text.eq_append_of_cutAt? cut
        have counted :
            asciiCount content =
              asciiCount before + 2 + (asciiCount inner + (1 + asciiCount rest)) := by
          rw [isWhole, Text.asciiCount_append, Text.asciiCount_append,
            Text.asciiCount_append, Text.asciiCount_cons]
          rfl
        have isShorter : rest.length < content.length := by
          simp [isWhole]
          omega
        refine (nested inner (by omega)).bind fun embedded _ => ?_
        refine .bind (ih ?_ (by omega)) fun parts _ => .ok _
        exact fun deeper isLess => nested deeper (by omega)

theorem settlesAlike_stringLiteral {lexeme : String} (nested :
      ∀ inner, asciiCount inner < asciiCount lexeme.toList →
        SettlesAlike (firstParse inner) (secondParse inner)) :
    SettlesAlike (stringLiteral firstParse lexeme) (stringLiteral secondParse lexeme) := by
  unfold stringLiteral
  cases unquoted : Text.Escape.unquote lexeme with
  | none => exact .error nofun
  | some =>
    have isLess := Text.Escape.asciiCount_unquote unquoted
    simp only
    split
    · refine .bind (settlesAlike_interpolationParts ?_ (Nat.lt_succ_self _)) fun parts _ => ?_
      · exact fun inner isSmaller => nested inner (by omega)
      · split <;> exact .ok _
    · exact .ok _

end Strings

/-! ## Sources -/

section Sources

variable {firstParse secondParse : TextParser} {source : List Char}
  {tokens : List Token}
  (nested :
    ∀ inner, asciiCount inner < asciiCount source →
      SettlesAlike (firstParse inner) (secondParse inner))
  (scanned : Token.scan source = .ok tokens)

include nested scanned

theorem readsAlike_of_scan : ∀ token ∈ tokens, token.ReadsAlike firstParse secondParse := by
  intro token mem _
  have isInside :=
    Text.asciiCount_le_of_sublist ((Token.cuts_of_scan scanned).lexeme_isInfix token mem).sublist
  exact settlesAlike_stringLiteral fun inner isLess => nested inner (by omega)

theorem settlesAlike_ofTokens :
    SettlesAlike (Expr.ofTokens firstParse tokens) (Expr.ofTokens secondParse tokens) := by
  have readAlike := readsAlike_of_scan nested scanned
  obtain ⟨front, ending, rfl, isEnd, _⟩ := (Token.cuts_of_scan scanned).exists_ending
  have settles :
      SettlesAlike
        ((Grammar.upTo firstParse (front ++ [ending]).length).expression (front ++ [ending]))
        ((Grammar.upTo secondParse (front ++ [ending]).length).expression (front ++ [ending])) := by
    rcases Grammar.expression_extended
        (fun token mem => readAlike token (mem_append_left _ mem)) isEnd (by simp)
        (Nat.le_refl (front ++ [ending]).length) [] with
      ⟨_, _, _, _, firstReads, secondReads⟩ | ⟨_, hasDepth, firstRefuses, secondRefuses⟩
    · rw [firstReads, secondReads]
      exact .ok _
    · rw [firstRefuses, secondRefuses]
      exact .error hasDepth
  refine settles.bind fun (expression, rest) _ => ?_
  cases rest with
  | nil => exact .ok _
  | cons =>
    dsimp only
    split
    · exact .ok _
    · exact .error nofun

end Sources

/-- The number of ASCII characters bounds the depth of the interpolations. -/
theorem settlesAlike_parseWithin (firstEnough : asciiCount source < firstDepth)
    (secondEnough : asciiCount source < secondDepth) :
    SettlesAlike (Expr.parseWithin firstDepth source) (Expr.parseWithin secondDepth source) := by
  induction firstDepth generalizing source secondDepth with
  | zero => exact absurd firstEnough (Nat.not_lt_zero _)
  | succ _ ih =>
    rcases secondDepth with _ | secondLeft
    · omega
    refine .bind ⟨rfl, Token.scanFrom_ne_exhausted (Nat.le_refl _)⟩ fun tokens scanned => ?_
    exact settlesAlike_ofTokens (fun inner isLess => ih (by omega) (by omega)) scanned

/-- Reading an expression is reading what is nested in it the same way. -/
theorem settlesAlike_parse (enough : asciiCount source < depth) :
    SettlesAlike (Expr.parseWithin depth source) (Expr.parse source) :=
  settlesAlike_parseWithin enough (Nat.lt_succ_of_le (Text.asciiCount_le_length source))

/-- A reader ends within the tokens: whatever may stand behind their end, it takes at least one of
them and leaves at least one, or it refuses for another cause than its depth. -/
def EndsWithin (reader : Reader α) (tokens : List Token) : Prop :=
  (∃ value rest, (∀ more, reader (tokens ++ more) = .ok (value, rest ++ more)) ∧
    rest <:+ tokens ∧ 0 < rest.length ∧ rest.length < tokens.length) ∨
  ∃ fault, (∀ more, reader (tokens ++ more) = .error fault) ∧ fault ≠ .exhausted

theorem endsWithin_expression {front : List Token} {ending : Token}
    (readAlike : ∀ token ∈ front, token.ReadsAlike parse parse) (isEnd : ending.kind = .finish)
    (enough : front.length < bound) :
    EndsWithin (Grammar.upTo parse bound).expression (front ++ [ending]) := by
  have extended := Grammar.expression_extended readAlike isEnd enough (Nat.le_refl bound)
  rcases extended [] with ⟨value, left, isSuffix, shorter, reads, _⟩ | ⟨fault, hasDepth, refuses, _⟩
  · refine .inl ⟨value, left ++ [ending], fun more => ?_, ?_, by simp, by simpa using shorter⟩
    · rcases extended more with ⟨_, _, _, _, readsAgain, readsMore⟩ | ⟨_, _, refuses, _⟩
      · obtain ⟨rfl, isLeft⟩ := Prod.mk.inj (Except.ok.inj (reads.symm.trans readsAgain))
        obtain rfl := append_cancel_right isLeft
        simpa using readsMore
      · cases reads.symm.trans refuses
    · obtain ⟨before, rfl⟩ := isSuffix
      exact ⟨before, by simp⟩
  · refine .inr ⟨fault, fun more => ?_, hasDepth⟩
    rcases extended more with ⟨_, _, _, _, reads, _⟩ | ⟨_, _, refusesAgain, refusesMore⟩
    · cases refuses.symm.trans reads
    · obtain rfl := Except.error.inj (refuses.symm.trans refusesAgain)
      simpa using refusesMore

/-- What is nested in a source is read like a source of its own. -/
theorem Expr.parse_eq (source : List Char) :
    Expr.parse source = Token.scan source >>= Expr.ofTokens Expr.parse := by
  have settles :
      SettlesAlike (Expr.parse source) (Token.scan source >>= Expr.ofTokens Expr.parse) := by
    refine .bind ⟨rfl, Token.scanFrom_ne_exhausted (Nat.le_refl _)⟩ fun tokens scanned => ?_
    refine settlesAlike_ofTokens (fun inner isLess => settlesAlike_parse ?_) scanned
    exact isLess.trans_le (Text.asciiCount_le_length source)
  exact settles.same

theorem Expr.parse_ne_exhausted (source : List Char) : Expr.parse source ≠ .error .exhausted :=
  (settlesAlike_parse (Nat.lt_succ_of_le (Text.asciiCount_le_length source))).hasDepth

/-- Reading ends on every source.  The tokens of the source and the expressions that are nested in
its strings are all read, or one of them is refused, without a bound on how deep they are nested;
and wherever an expression starts, reading it takes a token and stays within the tokens. -/
theorem Expr.parse_ends (source : List Char) : Token.scan source ≠ .error .exhausted ∧
      Expr.parse source ≠ .error .exhausted ∧
      (∀ depth, asciiCount source < depth → Expr.parseWithin depth source = Expr.parse source) ∧
      Expr.parse source = Token.scan source >>= Expr.ofTokens Expr.parse ∧
      ∀ tokens rest bound, Token.scan source = .ok tokens → rest <:+ tokens → rest ≠ [] →
        rest.length ≤ bound →
          (Grammar.upTo Expr.parse bound).expression rest =
              (Grammar.upTo Expr.parse rest.length).expression rest ∧
            EndsWithin (Grammar.upTo Expr.parse bound).expression rest := by
  refine ⟨Token.scanFrom_ne_exhausted (Nat.le_refl _), Expr.parse_ne_exhausted source,
    fun depth enough => (settlesAlike_parse enough).same, Expr.parse_eq source, ?_⟩
  intro tokens rest bound scanned isSuffix notEmpty bounded
  have readAlike := readsAlike_of_scan (fun inner _ => ⟨rfl, Expr.parse_ne_exhausted inner⟩) scanned
  obtain ⟨_, ending, rfl, isEnd, _⟩ := (Token.cuts_of_scan scanned).exists_ending
  obtain ⟨front, rfl, frontSuffix⟩ := (List.suffix_concat_iff.mp isSuffix).resolve_left notEmpty
  have frontAlike : ∀ token ∈ front, token.ReadsAlike Expr.parse Expr.parse := fun token member =>
    readAlike token (List.mem_append_left _ (frontSuffix.subset member))
  have enough : front.length < (front ++ [ending]).length := by simp
  refine ⟨?_, endsWithin_expression frontAlike isEnd (enough.trans_le bounded)⟩
  rcases Grammar.expression_extended frontAlike isEnd enough bounded [] with
    ⟨_, _, _, _, firstReads, secondReads⟩ | ⟨_, _, firstRefuses, secondRefuses⟩
  · rw [firstReads, secondReads]
  · rw [firstRefuses, secondRefuses]

/-- A literal beyond ASCII holds an interpolation that holds another one. -/
theorem Expr.parse_ends_nested : Token.scan "\"é$(\\\"$(x)\\\")\"".toList =
        .ok [⟨.string, "\"é$(\\\"$(x)\\\")\"", ⟨1, 1⟩⟩, ⟨.finish, "", ⟨1, 15⟩⟩] ∧
      EndsWithin (Grammar.upTo Expr.parse 2).expression
        [⟨.string, "\"é$(\\\"$(x)\\\")\"", ⟨1, 1⟩⟩, ⟨.finish, "", ⟨1, 15⟩⟩] := by
  have scanned :
      Token.scan "\"é$(\\\"$(x)\\\")\"".toList =
        .ok [⟨.string, "\"é$(\\\"$(x)\\\")\"", ⟨1, 1⟩⟩, ⟨.finish, "", ⟨1, 15⟩⟩] := by
    cbv
  obtain ⟨_, _, _, _, ends⟩ := Expr.parse_ends "\"é$(\\\"$(x)\\\")\"".toList
  exact ⟨scanned, (ends _ _ 2 scanned List.suffix_rfl (List.cons_ne_nil _ _) (Nat.le_refl 2)).2⟩

end Weave
