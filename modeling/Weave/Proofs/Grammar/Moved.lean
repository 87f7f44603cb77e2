import Mathlib.Data.List.Forall2
import Weave.Proofs.Expr.Placeless
import Weave.Proofs.Grammar.Completeness
import Weave.Proofs.Token.Moved

namespace Weave

open List

/-!
# Expressions that stand elsewhere

No reader looks at a position.  An expression that is read elsewhere is the same but for its
positions, and one that cannot be read is refused at the same word.  A fault inside of a string does
not depend on where the string stands, and only such a fault can leave no room for another attempt.

Whether the same words can be read elsewhere is seen by running two readers in tandem; that they are
read as the same expression follows from forgetting the positions in both derivations.
-/

variable {parse : TextParser} {fault : ParseFault}

/-! ## Derivations without positions -/

/-- What is read at a place, with every position forgotten. -/
def Place.placeless : (place : Place) → place.Value → place.Value
  | .expr _ | .key => Expr.placeless
  | .field => Expr.placelessField
  | .parameter => Expr.placelessParameter
  | .type => id
  | .pattern => Expr.placelessPattern
  | .alternative => Expr.placelessCase
  | .alternatives => map Expr.placelessCase
  | .items _ item | .list _ item => map item.placeless

/-- Read what is nested in a string, and forget every position. -/
def placelessly (parse : TextParser) (text : List Char) :
    Except ParseFault Expr :=
  (parse text).map Expr.placeless

theorem interpolationParts_placelessly {parts : List Expr}
    (areRead : interpolationParts parse fuel content = .ok parts) :
    interpolationParts (placelessly parse) fuel content = .ok (parts.map Expr.placeless) := by
  induction fuel generalizing content parts with
  | zero => cases areRead
  | succ _ ih =>
    rw [interpolationParts] at areRead ⊢
    cases cut : Text.cutAt? interpolationMark content with
    | none =>
      simp only [cut, Except.ok.injEq] at areRead ⊢
      obtain rfl := areRead
      split <;> rfl
    | some =>
      simp only [cut] at areRead ⊢
      split at areRead
      · cases areRead
      · simp only [*, except_bind_eq_ok] at areRead ⊢
        obtain ⟨embedded, isEmbedded, _, areOthers, ⟨⟩⟩ := areRead
        refine ⟨embedded.placeless, by simp [placelessly, isEmbedded, Except.map], _, ih areOthers,
          ?_⟩
        split <;> simp [Expr.placeless, pure, Except.pure]

theorem stringLiteral_placelessly {value : Expr} (isRead : stringLiteral parse lexeme = .ok value) :
    stringLiteral (placelessly parse) lexeme = .ok value.placeless := by
  rw [stringLiteral] at isRead ⊢
  cases unquoted : Text.Escape.unquote lexeme with
  | none => simp [unquoted] at isRead
  | some =>
    simp only [unquoted] at isRead ⊢
    split at isRead
    · simp only [*, if_true, interpolated, except_bind_eq_ok] at isRead ⊢
      obtain ⟨_, areRead, isWhole⟩ := isRead
      refine ⟨_, interpolationParts_placelessly areRead, ?_⟩
      split at isWhole <;> cases isWhole
      · rfl
      · rfl
      · rename_i notEmpty notText
        split
        · simp_all
        · rename_i isText
          obtain ⟨_, rfl, isPart⟩ := map_eq_singleton_iff.mp isText
          exact absurd (by rw [Expr.eq_text_of_placeless isPart]) (notText _)
        · simp [Expr.placeless, pure, Except.pure]
    · cases isRead
      simp [*, Expr.placeless]

theorem Token.literal_placeless {token : Token} {value : Expr}
    (isRead : token.literal parse = .ok value) :
    token.placeless.literal (placelessly parse) = .ok value.placeless := by
  rw [literal] at isRead ⊢
  split at isRead <;> simp only [kind_placeless, lexeme_placeless, *]
  · exact stringLiteral_placelessly isRead
  all_goals
    cases isRead
    try rfl

/-- Whether a token is an operator, and which, does not depend on where it stands. -/
theorem operatorsAt_placeless {token : Token} (combines : operatorsAt rank token = some combine) :
    ∃ other, operatorsAt rank token.placeless = some other ∧
      ∀ left right, (combine left right).placeless = other left.placeless right.placeless := by
  unfold operatorsAt multiplicativeOperators additiveOperators comparisonOperators
    defaultOperators at *
  split at combines <;> dsimp only at combines ⊢ <;> split at combines <;> cases combines <;>
    simp only [Token.kind_placeless, *] <;> exact ⟨_, rfl, fun _ _ => rfl⟩

theorem Selects.placeless {tokens : List Token} (selects : Selects tokens selector) :
    Selects (tokens.map Token.placeless) selector := by
  cases selects with
  | key isWord => exact .key isWord
  | every isStar isWord => exact .every isStar isWord
  | marked isSign isWord => exact .marked isSign isWord

theorem Level.Ends.placeless {level : Level} {token : Token} (ends : level.Ends token) :
    level.Ends token.placeless := by
  rcases level with _ | _ | (_ | rank) | _ <;> try exact ends
  exact operatorsAt_eq_none (Token.kind_placeless token) ends

theorem Place.Ends.placeless {place : Place} {token : Token} (ends : place.Ends token) :
    place.Ends token.placeless := by
  cases place with
  | expr => exact Level.Ends.placeless ends
  | _ => trivial

theorem ahead_placeless (tokens : List Token) :
    ahead (tokens.map Token.placeless) = (ahead tokens).placeless := by
  cases tokens <;> rfl

/-- What is derived is derived without positions as well. -/
theorem Derives.placeless {place : Place} {tokens : List Token} {value : place.Value} {next : Token}
    (derives : Derives parse none place tokens value next) :
    Derives (placelessly parse) none place (tokens.map Token.placeless) (place.placeless value)
      next.placeless := by
  induction derives with simp only [map_append, map_cons, map_nil, Place.placeless, Expr.placeless,
    Expr.placelessAll_eq_map, Expr.placelessFields_eq_map, Expr.placelessParameters_eq_map,
    Expr.placelessCases_eq_map, Expr.placelessOption]
  | hole isHole => cases isHole
  | literal isRead => exact .literal (Token.literal_placeless isRead)
  | list opens _ inside => exact .list opens inside
  | object opens _ inside => exact .object opens inside
  | lambda opens _ isArrow _ binders inside => exact .lambda opens binders isArrow inside
  | enclosed opens closes _ noBinder inside =>
    refine .enclosed opens closes inside fun isArrow word isOne => ?_
    obtain ⟨name, rfl, rfl⟩ := map_eq_singleton_iff.mp isOne
    exact noBinder isArrow name rfl
  | start isOperand _ first => exact .start isOperand first
  | property isOperand _ isDot selects base =>
    exact .property isOperand base isDot selects.placeless
  | safe isOperand _ isDot isWord base => exact .safe isOperand base isDot isWord
  | index isOperand _ opens closes _ base inside => exact .index isOperand base opens closes inside
  | call isOperand _ opens _ base inside => exact .call isOperand base opens inside
  | coercion _ isAs _ noOptions base target => exact .coercion base isAs target noOptions
  | coercionWith _ isAs _ opens _ base target inside =>
    exact .coercionWith base isAs target opens inside
  | matching _ isMatch opens _ notEmpty base inside =>
    exact .matching base isMatch opens inside (by simpa using notEmpty)
  | infixCall _ isWord notAs calls isLevel _ ends base arg =>
    exact .infixCall base isWord notAs calls isLevel arg ends.placeless
  | rise _ ends item => exact .rise item ends.placeless
  | join _ combines _ ends base item =>
    obtain ⟨_, isOther, same⟩ := operatorsAt_placeless combines
    rw [same]
    exact .join base isOther item ends.placeless
  | expression notIf _ ends whole =>
    exact .expression (by rw [ahead_placeless]; exact notIf) whole ends.placeless
  | conditional isIf opens closes isElse _ _ _ inside first second =>
    exact .conditional isIf opens closes isElse inside first second
  | last closes ends _ only => exact .last closes ends.placeless only
  | more isComma ends _ _ first rest => exact .more isComma ends.placeless first rest
  | empty closes => exact .empty closes
  | filled notClosed _ items => exact .filled (by rw [ahead_placeless]; exact notClosed) items
  | word isWord => exact .word isWord
  | quoted isString isRead => exact .quoted isString (Token.literal_placeless isRead)
  | computed opens closes _ inside => exact .computed opens closes inside
  | field isColon _ _ named inside => exact .field isColon named inside
  | parameter isWord noDefault => exact .parameter isWord noDefault
  | fallback isWord isAssign _ inside => exact .fallback isWord isAssign inside
  | type isWord noArguments => exact .type isWord noArguments
  | generic isWord opens _ inside =>
    exact .generic isWord opens (by simpa [Place.placeless] using inside)
  | binding isVar isWord noGuard => exact .binding isVar isWord noGuard
  | bindingWhen isVar isWord isWhen _ inside => exact .bindingWhen isVar isWord isWhen inside
  | matcher notVar noGuard _ base =>
    exact .matcher (by rw [ahead_placeless]; exact notVar) noGuard base
  | matcherWhen notVar isWhen _ _ base inside =>
    exact .matcherWhen (by rw [ahead_placeless]; exact notVar) isWhen base inside
  | case isCase isArrow _ _ matched inside => exact .case isCase isArrow matched inside
  | otherwise isElse isArrow _ inside => exact .otherwise isElse isArrow inside
  | noCases closes => exact .noCases closes
  | cases isWord noComma _ _ base rest =>
    exact .cases (by rw [ahead_placeless]; exact isWord) (by rw [ahead_placeless]; exact noComma)
      (by rw [ahead_placeless]; exact base) rest
  | separated isWord isComma _ _ base rest =>
    exact .separated (by rw [ahead_placeless]; exact isWord) isComma base rest

/-! ## The same words elsewhere -/

/-- How the tokens of a text are read, and what stands for them elsewhere. -/
structure Relocation where
  parse : TextParser
  fits : Token → Token → Prop
  same : ∀ {token other}, fits token other → token.placeless = other.placeless
  ending : Token
  otherEnding : Token
  isEnd : ending.kind = .finish
  endsFit : fits ending otherEnding

namespace Relocation

variable (relocation : Relocation)

/-- Two faults, the second about the same word elsewhere or about the inside of the same string. -/
inductive Refuses (fault other : ParseFault) : Prop
  | blamed (fits : relocation.fits token otherToken) (blame : Blame)
      (isFault : fault = blame.fault token) (isOther : other = blame.fault otherToken) :
      Refuses fault other
  | noCases (isFault : fault = .noCases) (isOther : other = .noCases) : Refuses fault other
  | inside (fits : relocation.fits token otherToken) (isString : token.kind = .string)
      (isRefused : stringLiteral relocation.parse token.lexeme = .error fault)
      (same : other = fault) :
      Refuses fault other

theorem kind {token other : Token} (fits : relocation.fits token other) :
    other.kind = token.kind := by
  rw [← other.kind_placeless, ← relocation.same fits, token.kind_placeless]

/-- The same words twice, the second time elsewhere. -/
def tandem : Tandem where
  fits := relocation.fits
  meets count tokens others :=
    ∃ front otherFront, Forall₂ relocation.fits front otherFront ∧ front.length = count ∧
      tokens = front ++ [relocation.ending] ∧ others = otherFront ++ [relocation.otherEnding]
  strict := False
  refuses := relocation.Refuses
  head := by
    rintro _ _ _ ⟨_, _, fit, _, rfl, rfl⟩
    cases fit with
    | nil => exact ⟨_, _, _, _, rfl, rfl, relocation.endsFit⟩
    | cons fits => exact ⟨_, _, _, _, rfl, rfl, fits⟩
  tail := by
    rintro _ _ _ _ _ ⟨_, _, fit, rfl, isFirst, isSecond⟩ notEnd
    cases fit with
    | nil => exact absurd ((cons.inj isFirst).1 ▸ relocation.isEnd) notEnd
    | cons _ fit => exact ⟨_, rfl, _, _, fit, rfl, (cons.inj isFirst).2, (cons.inj isSecond).2⟩
  same _ := False.elim
  kind := relocation.kind
  lexeme {first second} fits := by
    rw [← second.lexeme_placeless, ← relocation.same fits, first.lexeme_placeless]
  blames fits blame := .blamed fits blame rfl rfl
  noCases := .noCases rfl rfl
  recovers refuses := by
    cases refuses with
    | blamed _ blame isFault isOther => cases blame <;> rw [isFault, isOther] <;> rfl
    | noCases isFault isOther => rw [isFault, isOther]
    | inside _ _ _ same => rw [same]

variable {relocation} {front others : List Token}

/-- An expression is read wherever its words stand, or refused at the same word. -/
theorem expression (fit : Forall₂ relocation.fits front others) :
    relocation.tandem.Outcome 1 front.length
      ((Grammar.upTo relocation.parse (front.length + 1)).expression (front ++ [relocation.ending]))
      ((Grammar.upTo relocation.parse (others.length + 1)).expression
        (others ++ [relocation.otherEnding])) := by
  have agrees : relocation.tandem.Agrees relocation.parse relocation.parse := by
    intro start other fits isString
    cases isRead : stringLiteral relocation.parse start.lexeme with
    | ok => exact .values False.elim
    | error => exact .refused (.inside fits isString isRead rfl)
  rw [← fit.length_eq]
  exact (agrees.upTo (Nat.le_refl _)).1 _ _ _ ⟨front, others, fit, rfl, rfl, rfl⟩
    (Nat.lt_succ_self _)

/-- Tokens that are refused are refused in the same way elsewhere. -/
theorem refuses_ofTokens (fit : Forall₂ relocation.fits front others)
    (refused : Expr.ofTokens relocation.parse (front ++ [relocation.ending]) = .error fault) :
    ∃ other, relocation.Refuses fault other ∧
      Expr.ofTokens relocation.parse (others ++ [relocation.otherEnding]) = .error other := by
  simp only [Expr.ofTokens, length_append, length_singleton] at refused ⊢
  cases expression fit with
  | refused isHere isThere refuses =>
    rw [isHere] at refused
    rw [isThere]
    cases refused
    exact ⟨_, refuses, rfl⟩
  | read isHere isThere _ meets =>
    rw [isHere] at refused
    rw [isThere]
    -- What is left in front of the end is refused where it stands.
    obtain ⟨token, _, _, _, rfl, rfl, fits⟩ := relocation.tandem.head meets
    have sameKind := relocation.kind fits
    by_cases isEnd : token.kind = .finish
    · simp [isEnd, bind, Except.bind, pure, Except.pure] at refused
    · have isFault : fault = .trailingTokens token.position := by
        simpa [isEnd, bind, Except.bind, throw, throwThe, MonadExceptOf.throw] using refused.symm
      subst isFault
      refine ⟨_, .blamed fits .trailing rfl rfl, ?_⟩
      simp [sameKind, isEnd, bind, Except.bind, throw, throwThe, MonadExceptOf.throw, Blame.fault]

/-- The tokens of a text, which all stand elsewhere by the same move. -/
def ofMove (move : Position → Position) (parse : TextParser)
    (front : List Token) (ending : Token) (isEnd : ending.kind = .finish) :
    Relocation where
  parse := parse
  fits token other := token ∈ front ++ [ending] ∧ other = token.moved move
  same fits := by rw [fits.2]; rfl
  ending := ending
  otherEnding := ending.moved move
  isEnd := isEnd
  endsFit := ⟨by simp, rfl⟩

/-- Where all tokens stand elsewhere, they are refused there. -/
theorem refuses_map {ending : Token} (move : Position → Position) (isEnd : ending.kind = .finish)
    (refused : Expr.ofTokens parse (front ++ [ending]) = .error fault) :
    ∃ other, (ofMove move parse front ending isEnd).Refuses fault other ∧
      Expr.ofTokens parse ((front ++ [ending]).map (Token.moved move)) = .error other := by
  have fit : Forall₂ (ofMove move parse front ending isEnd).fits front
      (front.map (Token.moved move)) :=
    forall₂_map_right_iff.mpr (forall₂_same.mpr fun _ mem => ⟨mem_append_left _ mem, rfl⟩)
  rw [map_append]
  exact refuses_ofTokens fit refused

end Relocation

/-- The same words make up the same expression wherever they stand, but for its positions. -/
theorem Derives.elsewhere {front others : List Token} {ending otherEnding : Token} {value : Expr}
    (derives : Derives parse none (.expr .whole) front value ending) (isEnd : ending.kind = .finish)
    (sameWords : others.map Token.placeless = front.map Token.placeless)
    (endsSame : otherEnding.placeless = ending.placeless) :
    ∃ other, Derives parse none (.expr .whole) others other otherEnding ∧
      other.placeless = value.placeless := by
  have isOtherEnd : otherEnding.kind = .finish := by
    rw [← otherEnding.kind_placeless, endsSame, ending.kind_placeless, isEnd]
  have run := (Grammar.expression_iff_derives isEnd).mpr derives
  have same :=
    forall₂_map_left_iff.mp (forall₂_map_right_iff.mp
      ((congrFun₂ forall₂_eq_eq_eq _ _).mpr sameWords.symm))
  cases @Relocation.expression
    ⟨parse, _, id, ending, otherEnding, isEnd, endsSame.symm⟩ _ _ same with
  | refused isHere => cases run.symm.trans isHere
  | @read _ other _ _ _ isHere isThere _ meets =>
    obtain ⟨left, _, fit, _, rfl, rfl⟩ := meets
    obtain ⟨_, isLeft⟩ := Prod.mk.inj (Except.ok.inj (run.symm.trans isHere))
    obtain rfl : left = [] := by simpa using isLeft
    cases fit
    have derivesThere : Derives parse none (.expr .whole) others other otherEnding :=
      (Grammar.expression_iff_derives isOtherEnd).mp isThere
    have isHere := derives.placeless.ofTokens (ending.kind_placeless.trans isEnd)
    have isThere := derivesThere.placeless.ofTokens (otherEnding.kind_placeless.trans isOtherEnd)
    rw [sameWords, endsSame] at isThere
    exact ⟨other, derivesThere, Except.ok.inj (isThere.symm.trans isHere)⟩

end Weave
