import Weave.Proofs.Decimal.Numeral
import Weave.Proofs.Expr.Pasted
import Weave.Proofs.Phrase.Operators

namespace Weave

open List Text.Escape

open Lexeme (characters enclosed separated token)

/-!
# Reading undoes writing

Every phrase is read back from its text as the expression it stands for.  The lexemes of a phrase,
which stand nowhere, are derived as that very expression, and the same words are read alike wherever
they stand.  The induction is over the phrase: whatever the parts of a phrase are, each of them is
derived as a whole in front of what no expression goes on with, and anywhere when it stands as a
part, that is, in parentheses unless it is a leaf.
-/

variable {phrase base value left right result : Phrase} {chars : List Char} {next : Token}
  {guard : Option Phrase} {parse : TextParser}

/-! ## Lexemes -/

theorem byteCharacters_plain (plain : chars.all isPlainCharacter) :
    byteCharacters chars = chars := by
  induction chars with
  | nil => rfl
  | cons char _ ih =>
    simp only [all_cons, Bool.and_eq_true] at plain
    have isAscii : char.toNat < 128 := by
      simp only [isPlainCharacter, Bool.and_eq_true, decide_eq_true_eq] at plain
      omega
    rw [byteCharacters_cons, byteCharacters_ascii isAscii, ih plain.2,
      singleton_append]

theorem resolve_plain (plain : chars.all isPlainCharacter) :
    resolve .nothing chars = some chars := by
  induction chars with
  | nil => rfl
  | cons char _ ih =>
    simp only [all_cons, Bool.and_eq_true] at plain
    have notBackslash : char ≠ '\\' := by
      rintro rfl
      simp [isPlainCharacter] at plain
    simp [resolve, step, Text.Escape.plain, notBackslash, ih plain.2]

theorem stringLiteral_plain (parse : TextParser) (literal : PlainText) :
    stringLiteral parse (String.ofList (Lexeme.text literal).characters) =
      .ok (.text (String.ofList literal.characters)) := by
  have unquoted :
      Text.Escape.unquote (String.ofList (Lexeme.text literal).characters) =
        some (String.ofList literal.characters) := by
    simp [Text.Escape.unquote, Text.Escape.inner, Text.Escape.decode, characters,
      byteCharacters_plain literal.isPlain, resolve_plain literal.isPlain]
  simp [stringLiteral, unquoted, literal.hasNoMark]

theorem Name.isWord_token (name : Name) (isKeyword : word ∈ keywords) :
    (Lexeme.word name).token.isWord word = false := by
  have differs : String.ofList name.letters ≠ word := by
    rintro rfl
    exact name.isFree isKeyword
  simp [Token.isWord, token, characters, differs]

theorem Name.endsOperand_text (name : Name) : endsOperand name.text = false := by
  have areKeywords : ["else", "when", "default", "match", "case", "var"] ⊆ keywords := by decide
  exact Bool.eq_false_iff.mpr fun ends => name.isFree (areKeywords (contains_iff_mem.mp ends))

/-! ## Items -/

section Items

variable (bracket : Bracket) (item : Place) {write : ι → List Lexeme} {meaning : ι → item.Value}
  {parts : List ι} {closing : Lexeme} (ends : ∀ next, item.Ends next)
  (each : ∀ part ∈ parts, ∀ next, bracket.Follows next →
    Derives parse none item ((write part).map token) (meaning part) next)
  (closes : closing.kind = bracket.close)

include ends each closes

/-- Items between commas are items up to the bracket that closes them. -/
theorem derives_items (isSome : parts ≠ []) (next : Token) :
    Derives parse none (.items bracket item)
      ((separated (parts.map write) ++ [closing]).map token) (parts.map meaning)
      next := by
  induction parts with
  | nil => exact absurd rfl isSome
  | cons part others ih =>
    cases others with
    | nil =>
      have only := each part (by simp) closing.token (.inr closes)
      simpa [separated] using .last closes (ends _) only
    | cons =>
      have first := each part (by simp) (Lexeme.sign .comma).token (.inl rfl)
      have rest := Derives.more rfl (ends _) first (ih (forall_mem_cons.mp each).2 (by simp))
      simpa [separated] using rest

theorem derives_list (isFlat : (Place.list bracket item).IsFlat) (isEnd : bracket.close.ends)
    (next : Token) :
    Derives parse none (.list bracket item)
      ((separated (parts.map write) ++ [closing]).map token) (parts.map meaning)
      next := by
  by_cases isSome : parts = []
  · subst isSome
    exact .empty closes
  · exact (derives_items bracket item ends each closes isSome next).list_of_items isFlat isEnd

end Items

/-! ## Parts and wholes -/

/-- A phrase is derived as a whole in front of what no expression goes on with, and as a part
wherever it stands, whatever reads nested texts. -/
structure Phrase.Readable (phrase : Phrase) : Prop where
  whole : ∀ parse (next : Token), next.isStop = true →
    Derives parse none (.expr .whole) (phrase.lexemes.map token) phrase.toExpr next
  part : ∀ parse (next : Token),
    Derives parse none (.expr .primary) (phrase.part.map token) phrase.toExpr next

/-- A field is derived in front of a comma and in front of the end of the object. -/
def Field.Readable (field : Field) : Prop :=
  ∀ parse next, Bracket.curly.Follows next →
    Derives parse none .field (field.lexemes.map token) field.toPair next

/-- A parameter is derived in front of a comma and in front of the end of the parameters. -/
def Binder.Readable (binder : Binder) : Prop :=
  ∀ parse next, Bracket.round.Follows next →
    Derives parse none .parameter (binder.lexemes.map token) binder.toParameter next

/-- A case is derived in front of a comma and in front of the end of the cases. -/
def Branch.Readable (branch : Branch) : Prop :=
  ∀ parse next, Bracket.curly.Follows next →
    Derives parse none .alternative (branch.lexemes.map token) branch.toCase next

mutual

theorem TypeName.derives : ∀ (type : TypeName) (next : Token), next.kind ≠ .less →
      Derives parse none .type (type.lexemes.map token) type.toSpec next
  | .mk name [], next, noArguments => .type rfl noArguments
  | .mk name (first :: others), next, _ => by
    have each : ∀ type ∈ first :: others, ∀ next, Bracket.angle.Follows next →
        Derives parse none .type (type.lexemes.map token) type.toSpec next := by
      intro type mem next follows
      have noArguments : next.kind ≠ .less := by
        rcases follows with isKind | isKind <;> simp [isKind, Bracket.close]
      exact (mem_cons.mp mem).elim (fun same => same ▸ first.derives)
        (TypeName.derives_each others type) next noArguments
    rw [TypeName.lexemes, TypeName.lexemesOf_eq_map, TypeName.toSpec, TypeName.toSpecs_eq_map]
    exact .generic rfl rfl (derives_items .angle .type (fun _ => trivial) each rfl (by simp) next)
termination_by structural type => type

theorem TypeName.derives_each :
    ∀ (types : List TypeName), ∀ type ∈ types, ∀ next : Token, next.kind ≠ .less →
      Derives parse none .type (type.lexemes.map token) type.toSpec next
  | [], _, mem => (not_mem_nil mem).elim
  | first :: others, type, mem =>
    (mem_cons.mp mem).elim (fun same => same ▸ first.derives) (TypeName.derives_each others type)
termination_by structural types => types

end

/-- Cases between commas are cases up to the brace that closes them. -/
theorem derives_alternatives {branches : List Branch} (isSome : branches ≠ [])
    (each : ∀ branch ∈ branches, branch.Readable) (next : Token) :
    Derives parse none .alternatives
      ((separated (branches.map Branch.lexemes) ++ [Lexeme.sign .closeBrace]).map
        token)
      (branches.map Branch.toCase) next := by
  have starts (branch : Branch) :
      (ahead (branch.lexemes.map token)).kind = .word := by
    cases branch <;> rfl
  induction branches with
  | nil => exact absurd rfl isSome
  | cons branch others ih =>
    have isFirst := each branch (by simp) parse
    cases others with
    | nil =>
      have closes : Bracket.curly.Follows (Lexeme.sign .closeBrace).token := .inr rfl
      simpa [separated] using
        .cases (starts branch) (by decide) (isFirst _ closes) (.noCases rfl)
    | cons =>
      have rest := Derives.separated (starts branch) rfl
        (isFirst (Lexeme.sign .comma).token (.inl rfl)) (ih (by simp) (forall_mem_cons.mp each).2)
      simpa [separated] using rest

namespace Phrase

theorem part_of_leaf (isLeaf : phrase.isLeaf) : phrase.part = phrase.lexemes := by
  simp [part, enclosed, isLeaf]

theorem part_of_compound (compound : phrase.isLeaf = false) :
    phrase.part = .sign .openParen :: (phrase.lexemes ++ [.sign .closeParen]) := by
  simp [part, enclosed, compound]

theorem part_ne_nil (phrase : Phrase) : phrase.part ≠ [] := by
  cases phrase <;> simp [part, enclosed, isLeaf, lexemes]

theorem one_lt_length_lexemes (compound : phrase.isLeaf = false) : 1 < phrase.lexemes.length := by
  have partIsSome (base : Phrase) := length_pos_of_ne_nil base.part_ne_nil
  simp only [part] at partIsSome
  cases phrase with
  | number _ | text _ | boolean _ | null | name _ | placeholder _ => simp [isLeaf] at compound
  | list _ | object _ | conditional _ _ _ | lambda _ _ => simp [lexemes]
  | property base access =>
    cases access <;> simp [lexemes, Access.lexemes, partIsSome base]
  | index base _ | call base _ | binary _ base _ | infixed _ base _ | orElse base _
  | matching base _ _ | coercion base _ | coercionWith base _ _ =>
    have := partIsSome base
    simp only [lexemes, length_append, length_cons]
    omega

theorem isWord_ahead_part (phrase : Phrase) (isKeyword : word ∈ keywords) :
    (ahead (phrase.part.map token)).isWord word = false := by
  cases phrase with
  | name name => exact name.isWord_token isKeyword
  | boolean value => cases value <;> rfl
  | placeholder isSecond => cases isSecond <;> rfl
  | _ => rfl

/-- A part in front of what no expression goes on with is a whole expression. -/
theorem whole_of_part (isStop : next.isStop)
    (part : Derives parse none (.expr .primary) (phrase.part.map token) phrase.toExpr next) :
    Derives parse none (.expr .whole) (phrase.part.map token) phrase.toExpr next :=
  .whole (.start (.inr rfl) part) (phrase.isWord_ahead_part (by decide))
    (Token.endsUpTo_of_isStop isStop 4)

theorem Readable.stop (readable : phrase.Readable) (isStop : next.isStop) :
    Derives parse none (.expr .whole) (phrase.part.map token) phrase.toExpr next :=
  whole_of_part isStop (readable.part parse next)

theorem Readable.item (readable : phrase.Readable) {bracket : Bracket}
    (isEnd : bracket.close.ends) (follows : bracket.Follows next) :
    Derives parse none (.expr .whole) (phrase.part.map token) phrase.toExpr next :=
  readable.stop (follows.isStop isEnd)

theorem literal_of_leaf (isLeaf : phrase.isLeaf) (parse : TextParser) :
    ∃ lexeme, phrase.lexemes = [lexeme] ∧ lexeme.token.literal parse = .ok phrase.toExpr := by
  cases phrase with
  | number numeral =>
    refine ⟨.number numeral, rfl, ?_⟩
    simp [Token.literal, token, Lexeme.kind, characters, toExpr,
      Numeral.readFloat?_characters]
  | text literal => exact ⟨.text literal, rfl, stringLiteral_plain parse literal⟩
  | boolean value => cases value <;> exact ⟨_, rfl, rfl⟩
  | placeholder isSecond => cases isSecond <;> exact ⟨_, rfl, rfl⟩
  | null | name _ => exact ⟨_, rfl, rfl⟩
  | _ => cases isLeaf

theorem readable_leaf (isLeaf : phrase.isLeaf) : phrase.Readable := by
  have part (parse : TextParser) (next : Token) :
      Derives parse none (.expr .primary) (phrase.part.map token) phrase.toExpr next := by
    obtain ⟨lexeme, isOne, isRead⟩ := literal_of_leaf isLeaf parse
    rw [part_of_leaf isLeaf, isOne]
    exact .literal isRead
  refine ⟨fun parse next isStop => ?_, part⟩
  rw [← part_of_leaf isLeaf]
  exact whole_of_part isStop (part parse next)

/-- In parentheses, a compound phrase may stand anywhere. -/
theorem readable_of_whole (compound : phrase.isLeaf = false)
    (whole : ∀ parse (next : Token), next.isStop →
      Derives parse none (.expr .whole) (phrase.lexemes.map token) phrase.toExpr next) :
    phrase.Readable := by
  refine ⟨whole, fun parse next => ?_⟩
  rw [part_of_compound compound, map_cons, map_append]
  refine .enclosed rfl rfl (whole parse _ rfl) fun _ word isOne => ?_
  have isLong := one_lt_length_lexemes compound
  have isShort := congrArg length isOne
  simp only [length_map, length_singleton] at isShort
  omega

/-- What stands behind a part makes a longer operand of it. -/
theorem readable_of_operand {back : List Lexeme} (shape : phrase.lexemes = base.part ++ back)
    (compound : phrase.isLeaf = false) (readable : base.Readable)
    (extend : ∀ parse front next, next.isStop →
      Derives parse none (.expr (.layer 0)) front base.toExpr (ahead (back.map token)) →
        Derives parse none (.expr (.layer 0)) (front ++ back.map token) phrase.toExpr next) :
    phrase.Readable := by
  refine readable_of_whole compound fun parse next isStop => ?_
  have isFirst := readable.part parse (ahead (back.map token))
  rw [shape, map_append]
  refine (extend parse _ next isStop (.start (.inr rfl) isFirst)).whole ?_
    (Token.endsUpTo_of_isStop isStop 4)
  rw [ahead_append isFirst.ne_nil]
  exact base.isWord_ahead_part (by decide)

theorem readable_list (each : ∀ element ∈ elements, element.Readable) :
    (list elements).Readable := by
  refine readable_of_whole rfl fun parse next isStop => ?_
  rw [lexemes, partsOf_eq_map, toExpr, toExprs_eq_map]
  refine .whole (.start (.inr rfl) (.list rfl ?_)) rfl (Token.endsUpTo_of_isStop isStop 4)
  exact derives_list .square (.expr .whole) (fun _ => trivial)
    (fun element mem _ => (each element mem).item rfl) rfl ⟨rfl, trivial⟩ rfl next

theorem derives_object {fields : List Field} (each : ∀ field ∈ fields, field.Readable)
    (isStop : next.isStop) :
    Derives parse none (.expr .whole)
      ((.sign .openBrace :: (separated (fields.map Field.lexemes) ++
        [.sign .closeBrace])).map token)
      (.object (fields.map Field.toPair)) next := by
  refine .whole (.start (.inr rfl) (.object rfl ?_)) rfl (Token.endsUpTo_of_isStop isStop 4)
  exact derives_list .curly .field (fun _ => trivial) (fun field mem => each field mem parse) rfl
    ⟨rfl, trivial⟩ rfl next

theorem readable_object (each : ∀ field ∈ fields, field.Readable) : (object fields).Readable := by
  refine readable_of_whole rfl fun parse next isStop => ?_
  rw [lexemes, Field.lexemesOf_eq_map, toExpr, Field.toPairs_eq_map]
  exact derives_object each isStop

theorem readable_property (access : Access) (name : Name) (readable : base.Readable) :
    (property base access name).Readable := by
  refine readable_of_operand rfl rfl readable fun parse front next _ base => ?_
  cases access with
  | plain => exact .property (.inr rfl) base rfl (.key rfl)
  | every => exact .property (.inr rfl) base rfl (.every rfl rfl)
  | atName => exact .property (.inr rfl) base rfl (.marked rfl rfl)
  | safe => exact .safe (.inr rfl) base rfl rfl

theorem readable_index {place : Phrase} (readable : base.Readable)
    (placeReadable : place.Readable) : (index base place).Readable := by
  refine readable_of_operand rfl rfl readable fun parse front next _ base => ?_
  rw [map_cons, map_append]
  exact .index (.inr rfl) base rfl rfl (placeReadable.stop rfl)

theorem readable_call {fn : Phrase} (readable : fn.Readable)
    (each : ∀ arg ∈ args, arg.Readable) : (call fn args).Readable := by
  refine readable_of_operand rfl rfl readable fun parse front next _ base => ?_
  rw [partsOf_eq_map, toExpr, toExprs_eq_map]
  exact .call (.inr rfl) base rfl (derives_list .round (.expr .whole) (fun _ => trivial)
    (fun arg mem _ => (each arg mem).item rfl) rfl ⟨rfl, trivial⟩ rfl next)

theorem readable_infixed (word : Name) (leftReadable : left.Readable)
    (rightReadable : right.Readable) : (infixed word left right).Readable := by
  refine readable_of_operand rfl rfl leftReadable fun parse front next isStop base => ?_
  have notAs : word.text ≠ "as" := by
    intro isAs
    exact word.isFree (by rw [← Name.text, isAs]; decide)
  have ends := Token.endsUpTo_of_isStop isStop 0 0 (Nat.le_refl 0)
  refine .infixCall base rfl notAs word.endsOperand_text rfl
    (.start ?_ (rightReadable.part parse next)) ?_
  · split
    · exact .inl rfl
    · exact .inr rfl
  · split
    · exact (Bool.and_eq_true_iff.mp ends).1
    · exact ends

theorem readable_join (connective : Connective)
    (shape : phrase.lexemes = left.part ++ connective.lexeme :: right.part)
    (compound : phrase.isLeaf = false)
    (means : phrase.toExpr = connective.build left.toExpr right.toExpr)
    (leftReadable : left.Readable) (rightReadable : right.Readable) :
    phrase.Readable := by
  refine readable_of_whole compound fun parse next isStop => ?_
  have ends := Token.endsUpTo_of_isStop isStop 4
  have first :
      Derives parse none (.expr (.layer (connective.rank + 1))) _ _ connective.lexeme.token :=
    .layer (.start (.inr rfl) (leftReadable.part parse _)) fun lower isLess =>
      connective.endsUpTo rfl lower (Nat.le_of_lt_succ isLess)
  have second : Derives parse none (.expr (.layer connective.rank)) _ _ next :=
    .layer (.start (.inr rfl) (rightReadable.part parse next)) fun lower isLess =>
      ends lower (isLess.trans connective.rank_lt).le
  have joins := Derives.join first connective.combines second (ends _ connective.rank_lt.le)
  rw [shape, means, map_append]
  refine .expression ?_
    (joins.layer_of_le connective.rank_lt fun lower isLess => ends lower isLess.le)
    (ends 4 (Nat.le_refl 4))
  rw [ahead_append first.ne_nil]
  exact left.isWord_ahead_part (by decide)

theorem readable_conditional {condition whenTrue whenFalse : Phrase}
    (conditionReadable : condition.Readable) (trueReadable : whenTrue.Readable)
    (falseReadable : whenFalse.Readable) : (conditional condition whenTrue whenFalse).Readable := by
  refine readable_of_whole rfl fun parse next isStop => ?_
  simp only [lexemes, map_cons, map_append]
  exact .conditional rfl rfl rfl rfl (conditionReadable.stop rfl) (trueReadable.stop rfl)
    (falseReadable.stop isStop)

theorem readable_lambda {body : Phrase} (each : ∀ binder ∈ params, binder.Readable)
    (readable : body.Readable) : (lambda params body).Readable := by
  refine readable_of_whole rfl fun parse next isStop => ?_
  have binders := derives_list .round .parameter (fun _ => trivial)
    (fun binder mem => each binder mem parse) (rfl : (Lexeme.sign .closeParen).kind = _)
    ⟨rfl, trivial⟩ rfl (Lexeme.sign .arrow).token
  have primary := Derives.lambda (rfl : (Lexeme.sign .openParen).token.kind = _) binders rfl
    (readable.stop isStop)
  rw [toExpr]
  refine .whole (.start (.inr rfl) ?_) rfl (Token.endsUpTo_of_isStop isStop 4)
  simpa [lexemes, part] using primary

theorem readable_matching {subject : Phrase} (readable : subject.Readable)
    (each : ∀ branch ∈ first :: others, branch.Readable) :
    (matching subject first others).Readable := by
  refine readable_of_operand rfl rfl readable fun parse front next _ base => ?_
  rw [Branch.lexemesOf_eq_map, toExpr, Branch.toCases_eq_map]
  exact .matching base rfl rfl (derives_alternatives (by simp) each next) (by simp)

theorem readable_coercion (target : TypeName) (readable : value.Readable) :
    (coercion value target).Readable := by
  refine readable_of_operand rfl rfl readable fun parse front next isStop base => ?_
  refine .coercion base rfl (target.derives next ?_) ?_
  all_goals
    intro isKind
    simp [isKind, Token.isStop] at isStop

theorem readable_coercionWith (target : TypeName) (readable : value.Readable)
    (each : ∀ field ∈ options, field.Readable) : (coercionWith value target options).Readable := by
  refine readable_of_operand rfl rfl readable fun parse front next isStop base => ?_
  have isObject := @derives_object _ parse _ each isStop
  rw [Field.lexemesOf_eq_map, toExpr, Field.toPairs_eq_map, map_cons, map_append]
  exact .coercionWith base rfl (target.derives _ (by decide)) rfl isObject

end Phrase

/-! ## Fields, parameters and cases -/

theorem Field.readable_word (key : Name) (readable : value.Readable) :
    (Field.word key value).Readable :=
  fun _ _ follows => .field rfl (.word rfl) (readable.item rfl follows)

theorem Field.readable_text (key : PlainText) (readable : value.Readable) :
    (Field.text key value).Readable := by
  intro parse next follows
  have isRead :
      (Lexeme.text key).token.literal parse = .ok (.text (String.ofList key.characters)) :=
    stringLiteral_plain parse key
  exact .field rfl (.quoted rfl isRead) (readable.item rfl follows)

theorem Field.readable_computed {key : Phrase} (keyReadable : key.Readable)
    (readable : value.Readable) : (Field.computed key value).Readable := by
  intro parse next follows
  have named := @Derives.computed parse none (Lexeme.sign .closeParen).token
    (Lexeme.sign .openParen).token (Lexeme.sign .colon).token _ _ rfl rfl (keyReadable.stop rfl)
  have isField := Derives.field rfl named (readable.item rfl follows)
  simpa [Field.lexemes, Field.toPair, Phrase.part] using isField

theorem Binder.readable_plain (name : Name) : (Binder.plain name).Readable := by
  refine fun parse next follows => .parameter rfl ?_
  rcases follows with isKind | isKind <;> simp [isKind, Bracket.close]

theorem Branch.readable_otherwise (readable : result.Readable) :
    (Branch.otherwise result).Readable :=
  fun _ _ follows => .otherwise rfl rfl (readable.item rfl follows)

/-- A pattern in front of an arrow makes a case of what stands behind it. -/
theorem Branch.derives_case {names : List Lexeme} {pattern : MatchPattern Expr}
    (readable : result.Readable) (follows : Bracket.curly.Follows next)
    (matched : Derives parse none .pattern (names.map token) pattern
      (Lexeme.sign .arrow).token) :
    Derives parse none .alternative
      ((.keyword .caseWord :: (names ++ .sign .arrow :: result.part)).map token)
      ⟨some pattern, result.toExpr⟩ next := by
  rw [map_cons, map_append]
  exact .case rfl rfl matched (readable.item rfl follows)

theorem Branch.readable_value {matcher : Phrase} (matcherReadable : matcher.Readable)
    (guardReadable : ∀ phrase ∈ guard, phrase.Readable) (readable : result.Readable) :
    (Branch.value matcher guard result).Readable := by
  intro parse next follows
  have notVar := matcher.isWord_ahead_part (show "var" ∈ keywords by decide)
  rw [Branch.lexemes, ← append_assoc]
  refine Branch.derives_case readable follows ?_
  rw [map_append]
  cases guard with
  | none =>
    rw [guardLexemes, map_nil, append_nil]
    exact .matcher notVar rfl (matcherReadable.stop rfl)
  | some only =>
    exact .matcherWhen notVar rfl (matcherReadable.stop rfl) ((guardReadable only rfl).stop rfl)

theorem Branch.readable_binding (name : Name) (guardReadable : ∀ phrase ∈ guard, phrase.Readable)
    (readable : result.Readable) : (Branch.binding name guard result).Readable := by
  intro parse next follows
  refine @Branch.derives_case _ _ _
    (.keyword .varWord :: .word name :: guardLexemes guard) _ readable
    follows ?_
  cases guard with
  | none => exact .binding rfl rfl rfl
  | some only => exact .bindingWhen rfl rfl rfl ((guardReadable only rfl).stop rfl)

/-! ## The induction -/

mutual

theorem Phrase.readable : ∀ phrase : Phrase, phrase.Readable
  | .number _ | .text _ | .boolean _ | .null | .name _ | .placeholder _ =>
    Phrase.readable_leaf rfl
  | .list elements => Phrase.readable_list (Phrase.readable_each elements)
  | .object fields => Phrase.readable_object (Field.readable_each fields)
  | .property base access name => Phrase.readable_property access name base.readable
  | .index base place => Phrase.readable_index base.readable place.readable
  | .call fn args =>
    Phrase.readable_call fn.readable (Phrase.readable_each args)
  | .binary operator left right =>
    Phrase.readable_join (.operator operator) rfl rfl rfl left.readable right.readable
  | .infixed word left right => Phrase.readable_infixed word left.readable right.readable
  | .orElse left right => Phrase.readable_join .orElse rfl rfl rfl left.readable right.readable
  | .conditional condition whenTrue whenFalse =>
    Phrase.readable_conditional condition.readable whenTrue.readable whenFalse.readable
  | .lambda params body =>
    Phrase.readable_lambda (Binder.readable_each params) body.readable
  | .matching subject first others =>
    Phrase.readable_matching subject.readable fun branch mem =>
      (mem_cons.mp mem).elim (fun same => same ▸ first.readable)
        (Branch.readable_each others branch)
  | .coercion value target => Phrase.readable_coercion target value.readable
  | .coercionWith value target options =>
    Phrase.readable_coercionWith target value.readable (Field.readable_each options)
termination_by structural phrase => phrase

theorem Phrase.readable_each : ∀ (phrases : List Phrase), ∀ phrase ∈ phrases, phrase.Readable
  | [], _, mem => (not_mem_nil mem).elim
  | first :: others, phrase, mem =>
    (mem_cons.mp mem).elim (fun same => same ▸ first.readable) (Phrase.readable_each others phrase)
termination_by structural phrases => phrases

theorem Phrase.readable_option : ∀ (option : Option Phrase), ∀ phrase ∈ option, phrase.Readable
  | none, _, mem => (Option.not_mem_none _ mem).elim
  | some only, _, mem => Option.mem_some.mp mem ▸ only.readable
termination_by structural option => option

theorem Field.readable : ∀ field : Field, field.Readable
  | .word key value => Field.readable_word key value.readable
  | .text key value => Field.readable_text key value.readable
  | .computed key value => Field.readable_computed key.readable value.readable
termination_by structural field => field

theorem Field.readable_each : ∀ (fields : List Field), ∀ field ∈ fields, field.Readable
  | [], _, mem => (not_mem_nil mem).elim
  | first :: others, field, mem =>
    (mem_cons.mp mem).elim (fun same => same ▸ first.readable) (Field.readable_each others field)
termination_by structural fields => fields

theorem Binder.readable : ∀ binder : Binder, binder.Readable
  | .plain name => Binder.readable_plain name
  | .defaulting _ fallback => fun _ _ follows =>
    .fallback rfl rfl (fallback.readable.item rfl follows)
termination_by structural binder => binder

theorem Binder.readable_each : ∀ (binders : List Binder), ∀ binder ∈ binders, binder.Readable
  | [], _, mem => (not_mem_nil mem).elim
  | first :: others, binder, mem =>
    (mem_cons.mp mem).elim (fun same => same ▸ first.readable) (Binder.readable_each others binder)
termination_by structural binders => binders

theorem Branch.readable : ∀ branch : Branch, branch.Readable
  | .otherwise result => Branch.readable_otherwise result.readable
  | .value matcher guard result =>
    Branch.readable_value matcher.readable (Phrase.readable_option guard) result.readable
  | .binding name guard result =>
    Branch.readable_binding name (Phrase.readable_option guard) result.readable
termination_by structural branch => branch

theorem Branch.readable_each : ∀ (branches : List Branch), ∀ branch ∈ branches, branch.Readable
  | [], _, mem => (not_mem_nil mem).elim
  | first :: others, branch, mem =>
    (mem_cons.mp mem).elim (fun same => same ▸ first.readable) (Branch.readable_each others branch)
termination_by structural branches => branches

end

/-- Words that are derived wherever they stand are read from their text. -/
theorem Lexeme.parse_text {lexemes : List Lexeme}
    (derives : ∀ parse (next : Token), next.isStop →
      Derives parse none (.expr .whole) (lexemes.map token) expected next) :
    ∃ expr, Expr.parse (print lexemes) = .ok expr ∧ expr.placeless = expected := by
  obtain ⟨tokens, ending, cuts, areThose, isEnd⟩ := cuts_print lexemes .start
  have isStop : ending.isStop = true := by simp [Token.isStop, isEnd]
  have placed : (lexemes.map token).map Token.placeless = lexemes.map token := by
    rw [map_map]
    rfl
  have here := derives Expr.parse ending isStop
  obtain ⟨expr, isRead, same⟩ := here.elsewhere isEnd (areThose.trans placed.symm) rfl
  refine ⟨expr, Expr.parse_eq_ok_iff.mpr
    ⟨tokens, ending, Token.scanAt_eq_ok_iff.mpr cuts, isEnd, isRead⟩, same.trans ?_⟩
  -- Nothing that stands nowhere changes when its positions are forgotten.
  have isPlaceless : ending.placeless.kind = .finish := isEnd
  have forgotten := here.placeless.ofTokens isPlaceless
  rw [placed, (derives _ ending.placeless isStop).ofTokens isPlaceless] at forgotten
  exact (Except.ok.inj forgotten).symm

/-- Every phrase is read back from its text as the expression it stands for, up to positions. -/
theorem Phrase.parse_print (phrase : Phrase) :
    ∃ expr, Expr.parse phrase.print = .ok expr ∧ expr.placeless = phrase.toExpr :=
  Lexeme.parse_text phrase.readable.whole

end Weave
