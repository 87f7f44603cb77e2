import Weave.Proofs.Expr.All
import Weave.Proofs.Grammar.Completeness

namespace Weave

open List

/-!
# What the parts of an expression are made of

The grammar takes the names of an expression, its placeholders, the keys of its objects and what
its lambdas and cases bind from tokens, and leaves the inside of strings to another reader.  A
property of all parts that can be made so holds of every expression that is read.
-/

/-- The node carries words or levels of its own. -/
def Expr.isLabelled : Expr → Bool
  | .text _ => true
  | .name .. => true
  | .placeholder .. => true
  | .lambda .. => true
  | .matching .. => true
  | _ => false

/-- What is known of the tokens that are read. -/
structure Token.Stock where
  has : Token → Prop

/-- The functions of signs between operands, but for the sum. -/
def signFunctions : List String :=
  ["_binary_times", "_binary_divide", "_binary_concat", "_binary_diff", "_binary_eq",
    "_binary_neq", "_binary_gt", "_binary_lt", "_binary_gte", "_binary_lte"]

namespace Token.Stock

/-- The word of a token. -/
def HasWord (stock : Token.Stock) (word : String) : Prop :=
  ∃ token, stock.has token ∧ token.kind = .word ∧ token.lexeme = word

/-- A name with its position, made of a token.  A word that stands for a value and the sign of a
sum remember where they stand; words and signs between operands do not. -/
inductive Names (stock : Token.Stock) : String → Position → Prop
  | word (isThere : stock.has token) (isWord : token.kind = .word) :
      Names stock token.lexeme token.position
  | sum (isThere : stock.has token) (isPlus : token.kind = .plus) :
      Names stock "_binary_plus" token.position
  | infixWord (isThere : stock.has token) (isWord : token.kind = .word) :
      Names stock (infixFunction token.lexeme) .nowhere
  | sign (isFunction : word ∈ signFunctions) : Names stock word .nowhere

/-- The property holds of every node that is made of the tokens, and of all parts of the
expressions that strings are read as. -/
structure Gives (stock : Token.Stock) (parse : TextParser)
    (holds : Expr → Prop) : Prop where
  unlabelled : ∀ expr, expr.isLabelled = false → holds expr
  name : ∀ word position, stock.Names word position → holds (.name word position)
  placeholder :
    ∀ token, stock.has token → token.kind = .dollar →
      holds (.placeholder token.lexeme.length token.position)
  key : ∀ word, stock.HasWord word → holds (.text word)
  lambda :
    ∀ parameters body, (∀ parameter ∈ parameters, stock.HasWord parameter.name) →
      holds (.lambda parameters body)
  matching :
    ∀ subject cases,
      (∀ case ∈ cases, ∀ pattern, case.pattern = some pattern →
        ∀ name, pattern.binding = some name → stock.HasWord name) →
      holds (.matching subject cases)
  string :
    ∀ token expr, stock.has token → token.kind = .string →
      stringLiteral parse token.lexeme = .ok expr → expr.All holds

/-- What holds of what is read at a place, given what holds of all parts of expressions. -/
def AllAt (stock : Token.Stock) (holds : Expr → Prop) : (place : Place) → place.Value → Prop
  | .expr _, expr | .key, expr => expr.All holds
  | .field, field => field.1.All holds ∧ field.2.All holds
  | .parameter, parameter =>
    stock.HasWord parameter.name ∧ ∀ value, parameter.fallback = some value → value.All holds
  | .type, _ => True
  | .pattern, pattern => ofPattern pattern
  | .alternative, case => ofCase case
  | .alternatives, cases => ∀ case ∈ cases, ofCase case
  | .items _ item, values | .list _ item, values => ∀ value ∈ values, stock.AllAt holds item value
where
  /-- What holds of a pattern. -/
  ofPattern (pattern : MatchPattern Expr) : Prop :=
    (∀ name, pattern.binding = some name → stock.HasWord name) ∧
      (∀ matcher, pattern.matcher = some matcher → matcher.All holds) ∧
      ∀ guard, pattern.guard = some guard → guard.All holds
  /-- What holds of a case. -/
  ofCase (case : MatchCase Expr) : Prop :=
    (∀ pattern, case.pattern = some pattern → ofPattern pattern) ∧ case.result.All holds

variable {stock : Token.Stock} {parse : TextParser} {holds : Expr → Prop}
  {token : Token} {value left right : Expr}

namespace Gives

variable (gives : stock.Gives parse holds)

include gives

theorem literal (isThere : stock.has token) (isRead : token.literal parse = .ok value) :
    value.All holds := by
  rw [Token.literal] at isRead
  split at isRead
  · exact gives.string token value isThere ‹_› isRead
  all_goals cases isRead
  · exact .number (gives.unlabelled _ rfl)
  · exact .boolean (gives.unlabelled _ rfl)
  · exact .null (gives.unlabelled _ rfl)
  · exact .name (gives.name _ _ (.word isThere ‹_›))
  · exact .placeholder (gives.placeholder _ isThere ‹_›)

theorem binary {word : String} {pos : Position} (names : stock.Names word pos)
    (inLeft : left.All holds) (inRight : right.All holds) :
    (Expr.call (.name word pos) [left, right]).All holds :=
  .call (gives.unlabelled _ rfl) (.name (gives.name _ _ names)) (by simp [inLeft, inRight])

theorem operator {rank : Nat} {combine : Expr → Expr → Expr} (isThere : stock.has token)
    (combines : operatorsAt rank token = some combine) (inLeft : left.All holds)
    (inRight : right.All holds) : (combine left right).All holds := by
  unfold operatorsAt multiplicativeOperators additiveOperators comparisonOperators
    defaultOperators at combines
  split at combines <;> dsimp only at combines <;> split at combines <;> cases combines
  all_goals first
    | exact gives.binary (.sum isThere ‹_›) inLeft inRight
    | exact gives.binary (.sign (by decide)) inLeft inRight
    | exact .orElse (gives.unlabelled _ rfl) inLeft inRight

/-- What is made of the tokens of a stock has the property in all its parts. -/
theorem allAt {place : Place} {tokens : List Token} {value : place.Value} {next : Token}
    (derives : Derives parse none place tokens value next)
    (inStock : ∀ token ∈ tokens, stock.has token) :
    stock.AllAt holds place value := by
  induction derives with (try simp only [forall_mem_append, forall_mem_cons] at inStock)
  | hole isHole => cases isHole
  | literal isRead | quoted _ isRead => exact gives.literal (inStock.1) isRead
  | list _ _ inside => exact .list (gives.unlabelled _ rfl) (inside inStock.2)
  | object _ _ inside =>
    have inFields := inside inStock.2
    exact .object (gives.unlabelled _ rfl) (fun _ mem => (inFields _ mem).1)
      fun _ mem => (inFields _ mem).2
  | lambda _ _ _ _ binders inside =>
    have inBinders := binders inStock.2.1
    exact .lambda (gives.lambda _ _ fun _ mem => (inBinders _ mem).1)
      (fun _ mem => (inBinders _ mem).2) (inside inStock.2.2.2)
  | enclosed _ _ _ _ inside | computed _ _ _ inside => exact inside inStock.2.1
  | start _ _ first => exact first inStock
  | property _ _ _ _ base | safe _ _ _ _ base =>
    exact .property (gives.unlabelled _ rfl) (base inStock.1)
  | index _ _ _ _ _ base inside =>
    exact .index (gives.unlabelled _ rfl) (base inStock.1) (inside inStock.2.2.1)
  | call _ _ _ _ base inside =>
    exact .call (gives.unlabelled _ rfl) (base inStock.1) (inside inStock.2.2)
  | coercion _ _ _ _ base => exact .coercion (gives.unlabelled _ rfl) (base inStock.1) nofun
  | coercionWith _ _ _ _ _ base _ inside =>
    refine .coercion (gives.unlabelled _ rfl) (base inStock.1) ?_
    rintro _ ⟨⟩
    exact inside (forall_mem_cons.mpr inStock.2.2.2)
  | matching _ _ _ _ _ base inside =>
    have inCases := inside inStock.2.2.2
    exact .matching
      (gives.matching _ _ fun _ mem pattern isPattern => ((inCases _ mem).1 _ isPattern).1)
      (base inStock.1) (fun _ mem _ isPattern => ((inCases _ mem).1 _ isPattern).2.1)
      (fun _ mem _ isPattern => ((inCases _ mem).1 _ isPattern).2.2)
      fun _ mem => (inCases _ mem).2
  | infixCall _ isWord _ _ _ _ _ base arg =>
    exact gives.binary (.infixWord inStock.2.1 isWord) (base inStock.1) (arg inStock.2.2)
  | rise _ _ item => exact item inStock
  | join _ combines _ _ base item =>
    exact gives.operator inStock.2.1 combines (base inStock.1) (item inStock.2.2)
  | expression _ _ _ whole => exact whole inStock
  | conditional _ _ _ _ _ _ _ inside first second =>
    obtain ⟨_, _, inInner, _, inFirst, _, inSecond⟩ := inStock
    exact .conditional (gives.unlabelled _ rfl) (inside inInner) (first inFirst) (second inSecond)
  | last _ _ _ only => exact forall_mem_singleton.mpr (only inStock.1)
  | more _ _ _ _ first rest =>
    exact forall_mem_cons.mpr ⟨first inStock.1, rest inStock.2.2⟩
  | empty | noCases => exact forall_mem_nil _
  | filled _ _ items => exact items inStock
  | word isWord => exact .text (gives.key _ ⟨_, inStock.1, isWord, rfl⟩)
  | field _ _ _ named inside => exact ⟨named inStock.1, inside inStock.2.2⟩
  | parameter isWord => exact ⟨⟨_, inStock.1, isWord, rfl⟩, nofun⟩
  | fallback isWord _ _ inside =>
    refine ⟨⟨_, inStock.1, isWord, rfl⟩, ?_⟩
    rintro _ ⟨⟩
    exact inside inStock.2.2
  | type | generic => trivial
  | binding _ isWord =>
    refine ⟨?_, nofun, nofun⟩
    rintro _ ⟨⟩
    exact ⟨_, inStock.2.1, isWord, rfl⟩
  | bindingWhen _ isWord _ _ inside =>
    refine ⟨?_, nofun, ?_⟩ <;> rintro _ ⟨⟩
    · exact ⟨_, inStock.2.1, isWord, rfl⟩
    · exact inside inStock.2.2.2
  | matcher _ _ _ base =>
    refine ⟨nofun, ?_, nofun⟩
    rintro _ ⟨⟩
    exact base inStock
  | matcherWhen _ _ _ _ base inside =>
    refine ⟨nofun, ?_, ?_⟩ <;> rintro _ ⟨⟩
    · exact base inStock.1
    · exact inside inStock.2.2
  | case _ _ _ _ matched inside =>
    refine ⟨?_, inside inStock.2.2.2⟩
    rintro _ ⟨⟩
    exact matched inStock.2.1
  | otherwise _ _ _ inside => exact ⟨nofun, inside inStock.2.2⟩
  | cases _ _ _ _ base rest => exact forall_mem_cons.mpr ⟨base inStock.1, rest inStock.2⟩
  | separated _ _ _ _ base rest =>
    exact forall_mem_cons.mpr ⟨base inStock.1, rest inStock.2.2⟩

end Gives

end Token.Stock

end Weave
