import Weave.Proofs.Expr.Placeless
import Weave.Proofs.Grammar.Parentheses
import Weave.Proofs.Token.Pasted

namespace Weave

open List

/-!
# Texts that are put together

What the tokens of a text that is put together make up: words, literals, lists and objects in front
of every token, and a lambda whose body is a text that can be read alone.
-/

variable {token opening closing next : Token} {tokens inner : List Token} {expected value : Expr}

/-- A token that no expression goes on with. -/
def Token.isStop (token : Token) : Bool :=
  match token.kind with
  | .closeParen | .closeBracket | .closeBrace | .comma | .arrow | .finish => true
  | .word => token.lexeme == "else" || token.lexeme == "when"
  | _ => false

theorem Token.endsUpTo_of_isStop (isStop : token.isStop) (rank : Nat) :
    token.EndsUpTo rank := by
  intro lower _
  rcases lower with _ | _ | _ | _ | lower <;> cases isKind : token.kind <;>
    simp_all [Token.isStop, Level.Ends, Token.endsOperand, Token.endsPlain, operatorsAt,
      multiplicativeOperators, additiveOperators, comparisonOperators, defaultOperators]
  rcases isStop with isWord | isWord <;> simp [isWord, Weave.endsOperand]

theorem Token.isStop_of_ends (isEnd : token.kind.ends) : token.isStop := by
  rcases Token.Kind.ends_cases isEnd with isKind | isKind | isKind | isKind <;>
    simp [Token.isStop, isKind]

/-- The token stands behind an item. -/
def Bracket.Follows (bracket : Bracket) (next : Token) : Prop :=
  next.kind = .comma ∨ next.kind = bracket.close

theorem Bracket.Follows.isStop {bracket : Bracket} (follows : bracket.Follows next)
    (isEnd : bracket.close.ends) :
    next.isStop := by
  rcases follows with isComma | isClose
  · simp [Token.isStop, isComma]
  · exact Token.isStop_of_ends (isClose ▸ isEnd)

/-! ## Items -/

/-- The tokens are derived at the place in front of every token that can stand there, and a view of
the value is as expected. -/
def Place.Makes (place : Place) (view : place.Value → α) (expected : α) (follows : Token → Prop)
    (tokens : List Token) : Prop :=
  ∃ found, view found = expected ∧
    ∀ next, follows next → place.Ends next ∧ Derives Expr.parse none place tokens found next

namespace Token.Separated

variable (bracket : Bracket) (item : Place) (view : item.Value → α) {value : ι → α} {parts : List ι}
  {holds : ι → List Token → Prop} (separated : Separated holds parts tokens)
  (each : ∀ part ∈ parts, ∀ inner, holds part inner →
    item.Makes view (value part) bracket.Follows inner)
  (closes : closing.kind = bracket.close)

include separated each closes

/-- Items between commas are items up to the bracket that closes them. -/
theorem items (isSome : parts ≠ []) :
    (Place.items bracket item).Makes (List.map view) (parts.map value) (fun _ => True)
      (tokens ++ [closing]) := by
  induction separated with
  | nil => exact absurd rfl isSome
  | @single part inner isHeld =>
    obtain ⟨found, viewed, derives⟩ := each part (by simp) inner isHeld
    obtain ⟨ends, only⟩ := derives closing (.inr closes)
    exact ⟨[found], by simp [viewed], fun _ _ => ⟨trivial, .last closes ends only⟩⟩
  | @cons part _ _ inner _ pos isHeld _ ih =>
    obtain ⟨found, viewed, derives⟩ := each part (by simp) inner isHeld
    obtain ⟨ends, first⟩ := derives ⟨.comma, ",", pos⟩ (.inl rfl)
    obtain ⟨values, allViewed, isRest⟩ := ih (forall_mem_cons.mp each).2 (by simp)
    refine ⟨found :: values, by simp [viewed, allViewed], fun other _ => ⟨trivial, ?_⟩⟩
    simpa using .more rfl ends first (isRest other trivial).2

theorem list (isFlat : (Place.list bracket item).IsFlat) (isEnd : bracket.close.ends) :
    (Place.list bracket item).Makes (List.map view) (parts.map value) (fun _ => True)
      (tokens ++ [closing]) := by
  by_cases isSome : parts = []
  · subst isSome
    cases separated
    exact ⟨[], rfl, fun _ _ => ⟨trivial, .empty closes⟩⟩
  · obtain ⟨found, viewed, areItems⟩ := separated.items bracket item view each closes isSome
    exact ⟨found, viewed, fun next _ =>
      ⟨trivial, (areItems next trivial).2.list_of_items isFlat isEnd⟩⟩

end Token.Separated

/-! ## Primary expressions -/

/-- The tokens make up a primary expression, which is known but for its positions. -/
structure Token.Makes (expected : Expr) (tokens : List Token) : Prop where
  notIf : (ahead tokens).isWord "if" = false
  primary : (Place.expr .primary).Makes Expr.placeless expected (fun _ => True) tokens

namespace Token.Makes

theorem of_literal (notIf : token.isWord "if" = false)
    (isRead : token.literal Expr.parse = .ok value)
    (isExpected : value.placeless = expected) :
    Makes expected [token] :=
  ⟨notIf, value, isExpected, fun _ _ => ⟨trivial, .literal isRead⟩⟩

theorem word {text : String} (isOne : AreOne .word text.toList tokens) (notIf : text ≠ "if") :
    Makes (.name text .nowhere) tokens := by
  obtain ⟨_, rfl⟩ := isOne
  exact of_literal (by simp [isWord, notIf]) rfl (by simp [Expr.placeless])

theorem null (isOne : AreOne .nullWord "null".toList tokens) : Makes .null tokens := by
  obtain ⟨_, rfl⟩ := isOne
  exact of_literal rfl rfl rfl

theorem string {lexeme : List Char} {value : String} (isOne : AreOne .string lexeme tokens)
    (isText : stringLiteral Expr.parse (String.ofList lexeme) = .ok (.text value)) :
    Makes (.text value) tokens := by
  obtain ⟨_, rfl⟩ := isOne
  exact of_literal rfl isText rfl

/-- In front of what ends an expression, a primary expression is a whole one. -/
theorem whole (makes : Makes expected tokens) (ends : ∀ next, follows next → next.EndsUpTo 4) :
    (Place.expr .whole).Makes Expr.placeless expected follows tokens := by
  obtain ⟨notIf, found, isExpected, derives⟩ := makes
  exact ⟨found, isExpected, fun next isNext => ⟨trivial,
    .whole (.start (.inr rfl) (derives next trivial).2) notIf (ends next isNext)⟩⟩

theorem item (makes : Makes expected tokens) (bracket : Bracket)
    (isEnd : bracket.close.ends) :
    (Place.expr .whole).Makes Expr.placeless expected bracket.Follows tokens :=
  makes.whole fun _ follows => endsUpTo_of_isStop (follows.isStop isEnd) 4

/-- Expressions between commas and brackets make up a list. -/
theorem list {holds : ι → List Token → Prop} {elements : List ι} {value : ι → Expr}
    (opens : opening.kind = .openBracket) (closes : closing.kind = .closeBracket)
    (separated : Separated holds elements tokens)
    (each : ∀ element ∈ elements, ∀ inner, holds element inner → Makes (value element) inner) :
    Makes (.list (elements.map value)) (opening :: (tokens ++ [closing])) := by
  obtain ⟨found, viewed, derives⟩ := separated.list .square (.expr .whole) Expr.placeless
    (fun element mem inner isHeld => (each element mem inner isHeld).item .square rfl) closes
    ⟨rfl, trivial⟩ rfl
  refine ⟨by simp [isWord, opens], .list found, ?_, fun next _ =>
    ⟨trivial, .list opens (derives next trivial).2⟩⟩
  simpa [Expr.placeless] using viewed

/-- The tokens make up a field whose key is a word. -/
def Field (field : String × Expr) (tokens : List Token) : Prop :=
  ∃ key colon value, tokens = key :: colon :: value ∧ key.kind = .word ∧ key.lexeme = field.1 ∧
    colon.kind = .colon ∧ Makes field.2 value

theorem field {colon : Token} {name : Expr} {names : List Token}
    (isKey : ∀ next, Derives Expr.parse none .key names name next) (isColon : colon.kind = .colon)
    (makes : Makes expected tokens) :
    Place.field.Makes Expr.placelessField (name.placeless, expected) Bracket.curly.Follows
      (names ++ colon :: tokens) := by
  obtain ⟨found, isExpected, derives⟩ := makes.item .curly rfl
  refine ⟨(name, found), ?_, fun next follows =>
    ⟨trivial, .field isColon (isKey colon) (derives next follows).2⟩⟩
  rw [← isExpected]
  rfl

/-- Fields between commas and braces make up an object. -/
theorem object_of_fields {holds : ι → List Token → Prop} {fields : List ι} {value : ι → Expr × Expr}
    (opens : opening.kind = .openBrace) (closes : closing.kind = .closeBrace)
    (separated : Separated holds fields tokens)
    (each : ∀ field ∈ fields, ∀ inner, holds field inner →
      Place.field.Makes Expr.placelessField (value field) Bracket.curly.Follows inner) :
    Makes (.object (fields.map value)) (opening :: (tokens ++ [closing])) := by
  obtain ⟨found, viewed, derives⟩ := separated.list .curly .field Expr.placelessField each
    closes ⟨rfl, trivial⟩ rfl
  refine ⟨by simp [isWord, opens], .object found, ?_, fun next _ =>
    ⟨trivial, .object opens (derives next trivial).2⟩⟩
  simpa [Expr.placeless] using viewed

theorem object {items : List ι} {name : ι → String} {value : ι → Expr}
    (opens : opening.kind = .openBrace) (closes : closing.kind = .closeBrace)
    (separated : Separated (fun item => Field (name item, value item)) items tokens) :
    Makes (.object (items.map fun item => (.text (name item), value item)))
      (opening :: (tokens ++ [closing])) := by
  refine object_of_fields opens closes separated ?_
  rintro item _ _ ⟨key, _, _, rfl, isKey, isName, isColon, makes⟩
  rw [← show key.lexeme = name item from isName]
  exact makes.field (fun _ => .word isKey) isColon

end Token.Makes

/-! ## Lambdas -/

/-- A parameter that has a name only. -/
def Parameter.plain (name : String) : Parameter Expr :=
  ⟨name, none, none⟩

/-- The tokens in front of the body of a lambda with plain parameters. -/
def Grammar.AreBinders (names : List String) (tokens : List Token) : Prop :=
  ∃ opening inner closing arrow,
    tokens = opening :: (inner ++ [closing, arrow]) ∧ opening.kind = .openParen ∧
      Token.Separated (fun name => Token.AreOne .word name.toList) names inner ∧
      closing.kind = .closeParen ∧ arrow.kind = .arrow

theorem Grammar.AreBinders.derives {names : List String} {ending : Token}
    (areBinders : AreBinders names binders) (isEnd : ending.kind = .finish)
    (isBody : Derives Expr.parse none (.expr .whole) body value ending) :
    Derives Expr.parse none (.expr .whole) (binders ++ body)
      (.lambda (names.map Parameter.plain) value) ending := by
  obtain ⟨_, _, _, arrow, rfl, opens, separated, closes, isArrow⟩ := areBinders
  have isParameter : ∀ name ∈ names, ∀ part, Token.AreOne .word name.toList part →
      Place.parameter.Makes id (Parameter.plain name) Bracket.round.Follows part := by
    rintro name _ _ ⟨_, rfl⟩
    refine ⟨_, rfl, fun next follows => ⟨trivial, ?_⟩⟩
    have noDefault : next.kind ≠ .assign := by
      rcases follows with isKind | isKind <;> simp [isKind, Bracket.close]
    have isName : String.ofList name.toList = name := String.ofList_toList
    rw [isName]
    exact .parameter rfl noDefault
  obtain ⟨_, viewed, derives⟩ := separated.list .round .parameter id isParameter closes
    ⟨rfl, trivial⟩ rfl
  rw [map_id] at viewed
  subst viewed
  have isLambda := Derives.lambda opens (derives arrow trivial).2 isArrow isBody
  refine .whole (.start (.inr rfl) ?_) (by simp [Token.isWord, opens])
    (Token.endsUpTo_of_ends (by rw [isEnd]; rfl) 4)
  simpa using isLambda

end Weave
