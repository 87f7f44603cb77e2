import Weave.Proofs.Grammar.Completeness

namespace Weave

open List

/-!
# Redundant parentheses

A part of an expression may be put in parentheses wherever it stands.
-/

variable {parse : TextParser} {hole : Option Hole} {place : Place}
  {tokens inner : List Token} {value : Expr} {token next : Token}

/-! ## What a derivation ends in front of -/

/-- The token ends what stands inside of the place. -/
def Place.EndsInside : Place → Token → Prop
  | .expr (.layer rank), token => ∀ lower < rank, (Level.layer lower).Ends token
  | .expr .whole, token => ∀ lower < 5, (Level.layer lower).Ends token
  | _, _ => True

theorem Derives.endsInside {value : place.Value}
    (derives : Derives parse none place tokens value next) :
    place.EndsInside next := by
  induction derives with
  | hole isHole => cases isHole
  | start isOperand | property isOperand | safe isOperand | index isOperand | call isOperand =>
    rcases isOperand with rfl | rfl <;> simp [Place.EndsInside]
  | coercion | coercionWith | matching | infixCall => simp [Place.EndsInside]
  | rise _ ends ih | join _ _ _ ends _ ih | expression _ _ ends ih =>
    exact Nat.forall_lt_succ_right.mpr ⟨ih, ends⟩
  | conditional _ _ _ _ _ _ _ _ _ ih => exact ih
  | _ => trivial

/-! ## Other tokens in the place of a hole -/

theorem Level.ends_of_ends {level : Level} (isEnd : token.kind.ends) : level.Ends token := by
  rcases level with _ | _ | rank | _
  · trivial
  · rcases Token.Kind.ends_cases isEnd with isKind | isKind | isKind | isKind <;>
      simp [Level.Ends, Token.endsPlain, isKind]
  · exact Token.endsUpTo_of_ends isEnd rank rank (Nat.le_refl rank)
  · trivial

theorem Derives.kind_of_alternatives {cases : List (MatchCase Expr)}
    (derives : Derives parse hole .alternatives tokens cases next) :
    (ahead tokens).kind ≠ .finish := by
  cases derives with
  | noCases closes => simp [closes]
  | cases isWord _ base | separated isWord _ base =>
    rw [ahead_append base.ne_nil, isWord]
    decide

section Transfer

variable {fill : Token → List Token} (keeps : ∀ token, token.kind ≠ .finish → fill token = [token])
  (starts : ∀ token, token.kind = .finish →
    (ahead (fill token)).kind = .openParen ∨ fill token = [token])

include keeps starts

theorem ahead_flatMap (notEmpty : tokens ≠ []) : ahead (tokens.flatMap fill) = ahead tokens ∨
      (ahead (tokens.flatMap fill)).kind = .openParen := by
  cases tokens with
  | nil => contradiction
  | cons first =>
    rw [flatMap_cons]
    by_cases isHole : first.kind = .finish
    · rcases starts first isHole with isOpen | isSame
      · refine .inr ?_
        rwa [ahead_append]
        rintro isNil
        simp [isNil, ahead] at isOpen
      · simp [isSame]
    · simp [keeps first isHole]

omit starts in
theorem ahead_flatMap_of_ne (notHole : (ahead tokens).kind ≠ .finish) :
    ahead (tokens.flatMap fill) = ahead tokens := by
  cases tokens with
  | nil => simp [ahead] at notHole
  | cons first => simp [keeps first notHole]

theorem isWord_flatMap (notEmpty : tokens ≠ []) (isOther : (ahead tokens).isWord word = false) :
    (ahead (tokens.flatMap fill)).isWord word = false := by
  rcases ahead_flatMap keeps starts notEmpty with same | isOpen
  · rwa [same]
  · simp [Token.isWord, isOpen]

theorem fill_eq (token : Token) (notOpen : (ahead (fill token)).kind ≠ .openParen) :
    fill token = [token] := by
  by_cases isHole : token.kind = .finish
  · exact (starts token isHole).resolve_left notOpen
  · exact keeps token isHole

theorem eq_singleton_of_flatMap (notEmpty : tokens ≠ []) {word : Token} (isWord : word.kind = .word)
    (isSingle : tokens.flatMap fill = [word]) :
    tokens = [word] := by
  have isFirst : ahead tokens = word := by
    rcases ahead_flatMap keeps starts notEmpty with same | isOpen
    · rw [← same, isSingle, ahead_cons]
    · simp [isSingle, isWord] at isOpen
  cases tokens with
  | nil => contradiction
  | cons first others =>
    obtain rfl : first = word := isFirst
    have isKept : others.flatMap fill = [] := by
      simpa [keeps first (by simp [isWord])] using isSingle
    cases others with
    | nil => rfl
    | cons second =>
      have isNil := (append_eq_nil_iff.mp isKept).1
      have isFill := fill_eq keeps starts second (by simp [isNil, ahead])
      simp [isNil] at isFill

variable (fills : ∀ part, hole = some part → ∀ token, token.kind = .finish →
    Derives parse none (.expr part.level) (fill token) part.value part.next)

include fills

/-- What is derived with a hole is derived with other tokens in its place, and what is derived
without one is derived in front of everything that ends it. -/
theorem Derives.transfer {value : place.Value}
    (derives : Derives parse hole place tokens value next) :
    ∀ other, other = next ∨ hole = none ∧ other.kind.ends →
      Derives parse none place (tokens.flatMap fill) value other := by
  have ends {level : Level} {next other : Token} (ends : level.Ends next)
      (same : other = next ∨ hole = none ∧ other.kind.ends) :
      level.Ends other := by
    rcases same with rfl | ⟨_, isEnd⟩
    · exact ends
    · exact Level.ends_of_ends isEnd
  have differs {kind : Token.Kind} {next other : Token} (differs : next.kind ≠ kind)
      (isOpen : kind.ends = false) (same : other = next ∨ hole = none ∧ other.kind.ends) :
      other.kind ≠ kind := by
    rcases same with rfl | ⟨_, isEnd⟩
    · exact differs
    · rintro rfl
      simp [isEnd] at isOpen
  have guards {next other : Token} (noGuard : next.isWord "when" = false)
      (same : other = next ∨ hole = none ∧ other.kind.ends) :
      other.isWord "when" = false := by
    rcases same with rfl | ⟨_, isEnd⟩
    · exact noGuard
    · cases isKind : other.kind <;> simp_all [Token.isWord, Token.Kind.ends]
  have kept {token : Token} {rest : List Token} (notEnd : token.kind ≠ .finish) :
      (token :: rest).flatMap fill = token :: rest.flatMap fill := by
    rw [flatMap_cons, keeps token notEnd, singleton_append]
  have here {token : Token} : token = token ∨ hole = none ∧ token.kind.ends := .inl rfl
  have ofKind {token : Token} {kind : Token.Kind} (isKind : token.kind = kind)
      (isOther : kind ≠ .finish) : token.kind ≠ .finish := isKind ▸ isOther
  have ofWord {token : Token} {word : String} (isWord : token.isWord word) :
      token.kind ≠ .finish := ofKind (Token.isWord_iff.mp isWord).1 (by decide)
  induction derives with (
    intro other same
    try simp (disch := first | (apply ofKind; assumption; decide) | (apply ofWord; assumption)) only
      [flatMap_append, kept, flatMap_nil])
  | @hole _ token _ _ isHole marks =>
    rcases same with rfl | ⟨isNone, _⟩
    · simpa using fills _ isHole token marks
    · cases isHole.symm.trans isNone
  | @literal token _ _ isRead =>
    have notEnd : token.kind ≠ .finish := fun isEnd => by simp [Token.literal, isEnd] at isRead
    rw [kept notEnd]
    exact .literal isRead
  | list opens _ ih => exact .list opens (ih other same)
  | object opens _ ih => exact .object opens (ih other same)
  | lambda opens _ isArrow _ ihBinders ih =>
    exact .lambda opens (ihBinders _ here) isArrow (ih other same)
  | enclosed opens closes inside noBinder ih =>
    refine .enclosed opens closes (ih _ here) fun isArrow word isSingle isWord => ?_
    rcases same with rfl | ⟨_, isEnd⟩
    · have isInner := eq_singleton_of_flatMap keeps starts inside.ne_nil isWord isSingle
      exact noBinder isArrow word isInner isWord
    · simp [isArrow, Token.Kind.ends] at isEnd
  | start isOperand _ ih => exact .start isOperand (ih other same)
  | @property _ _ _ names _ _ _ isOperand _ isDot selects ih =>
    have named : names.flatMap fill = names := by
      cases selects with
      | key isWord => simp [keeps, isWord]
      | every isStar isWord => simp [keeps, isStar, isWord]
      | marked isSign isWord => simp [keeps, isSign, isWord]
    rw [named]
    exact .property isOperand (ih _ here) isDot selects
  | safe isOperand _ isDot isWord ih => exact .safe isOperand (ih _ here) isDot isWord
  | index isOperand _ opens closes _ ihBase ih =>
    exact .index isOperand (ihBase _ here) opens closes (ih _ here)
  | call isOperand _ opens _ ihBase ih =>
    exact .call isOperand (ihBase _ here) opens (ih other same)
  | coercion _ isAs _ noOptions ihBase ih =>
    exact .coercion (ihBase _ here) isAs (ih other same) (differs noOptions rfl same)
  | coercionWith _ isAs _ opens _ ihBase ihTarget ih =>
    have options := ih other same
    rw [kept (by simp [opens])] at options
    exact .coercionWith (ihBase _ here) isAs (ihTarget _ here) opens options
  | matching _ isMatch opens _ notEmpty ihBase ih =>
    exact .matching (ihBase _ here) isMatch opens (ih other same) notEmpty
  | infixCall _ isWord notAs calls isLevel _ isEnd ihBase ih =>
    exact .infixCall (ihBase _ here) isWord notAs calls isLevel (ih other same)
      (ends isEnd same)
  | rise _ isEnd ih => exact .rise (ih other same) (ends isEnd same)
  | join _ combines _ isEnd ihBase ih =>
    rw [kept (operatorsAt_kind combines).2.1]
    exact .join (ihBase _ here) combines (ih other same) (ends isEnd same)
  | expression notIf whole isEnd ih =>
    exact .expression (isWord_flatMap keeps starts whole.ne_nil notIf) (ih other same)
      (ends isEnd same)
  | conditional isIf opens closes isElse _ _ _ ih ihFirst ihSecond =>
    exact .conditional isIf opens closes isElse (ih _ here) (ihFirst _ here)
      (ihSecond other same)
  | @last _ _ _ bracket _ _ closes isEnd _ ih =>
    rw [kept (ofKind closes bracket.close_ne_finish)]
    exact .last closes isEnd (ih _ here)
  | more isComma isEnd _ _ ihFirst ih => exact .more isComma isEnd (ihFirst _ here) (ih other same)
  | @empty bracket _ _ _ closes =>
    rw [kept (ofKind closes bracket.close_ne_finish)]
    exact .empty closes
  | @filled _ bracket _ _ _ _ items ih =>
    refine .filled ?_ (ih other same)
    rcases ahead_flatMap keeps starts items.ne_nil with isAhead | isOpen
    · rwa [isAhead]
    · rw [isOpen]
      cases bracket <;> decide
  | word isWord => exact .word isWord
  | quoted isString isRead => exact .quoted isString isRead
  | computed opens closes _ ih => exact .computed opens closes (ih _ here)
  | field isColon _ _ ihNamed ih => exact .field isColon (ihNamed _ here) (ih other same)
  | parameter isWord noDefault => exact .parameter isWord (differs noDefault rfl same)
  | fallback isWord isAssign _ ih => exact .fallback isWord isAssign (ih other same)
  | type isWord noArguments => exact .type isWord (differs noArguments rfl same)
  | generic isWord opens _ ih => exact .generic isWord opens (ih other same)
  | binding isVar isWord noGuard => exact .binding isVar isWord (guards noGuard same)
  | bindingWhen isVar isWord isWhen _ ih => exact .bindingWhen isVar isWord isWhen (ih other same)
  | matcher notVar noGuard base ih =>
    exact .matcher (isWord_flatMap keeps starts base.ne_nil notVar) (guards noGuard same)
      (ih other same)
  | matcherWhen notVar isWhen base _ ihBase ih =>
    exact .matcherWhen (isWord_flatMap keeps starts base.ne_nil notVar) isWhen
      (ihBase _ here) (ih other same)
  | case isCase isArrow _ _ ihMatched ih =>
    exact .case isCase isArrow (ihMatched _ here) (ih other same)
  | otherwise isElse isArrow _ ih => exact .otherwise isElse isArrow (ih other same)
  | noCases closes => exact .noCases closes
  | cases isWord _ _ rest ihBase ih =>
    have isAhead := ahead_flatMap_of_ne keeps rest.kind_of_alternatives
    refine .cases ?_ ?_ ?_ (ih other same)
    · rw [ahead_flatMap_of_ne keeps (by simp [isWord]), isWord]
    · rwa [isAhead]
    · exact isAhead ▸ ihBase _ here
  | separated isWord isComma _ _ ihBase ih =>
    refine .separated ?_ isComma (ihBase _ here) (ih other same)
    rw [ahead_flatMap_of_ne keeps (by simp [isWord]), isWord]

end Transfer

/-! ## Parentheses around a part -/

/-- The level is one that some part of an expression is read at. -/
def Level.IsRead : Level → Prop
  | .layer rank => rank ≤ 4
  | _ => True

theorem Derives.before {value : place.Value} {ending : Token}
    (derives : Derives parse none place tokens value next) (isEnd : ending.kind.ends) :
    Derives parse none place tokens value ending := by
  have noHole : ∀ part : Hole, none = some part → ∀ token : Token, token.kind = .finish →
      Derives parse none (.expr part.level) [token] part.value part.next := by
    simp
  have moved := derives.transfer (fun _ _ => rfl) (fun _ _ => .inr rfl) noHole ending
    (.inr ⟨rfl, isEnd⟩)
  rwa [flatMap_singleton'] at moved

/-- An operand without words behind it is an operand. -/
def Place.Widens (parse : TextParser) :
    (place : Place) → List Token → place.Value → Token → Prop
  | .expr .plain, tokens, value, next => Derives parse none (.expr (.layer 0)) tokens value next
  | _, _, _, _ => True

theorem Derives.widens {value : place.Value}
    (derives : Derives parse none place tokens value next) :
    place.Widens parse tokens value next := by
  induction derives with
  | hole isHole => cases isHole
  | start isOperand first =>
    rcases isOperand with rfl | rfl
    · exact .start (.inr rfl) first
    · trivial
  | property isOperand _ isDot selects ih =>
    rcases isOperand with rfl | rfl
    · exact .property (.inr rfl) ih isDot selects
    · trivial
  | safe isOperand _ isDot isWord ih =>
    rcases isOperand with rfl | rfl
    · exact .safe (.inr rfl) ih isDot isWord
    · trivial
  | index isOperand _ opens closes inside ih =>
    rcases isOperand with rfl | rfl
    · exact .index (.inr rfl) ih opens closes inside
    · trivial
  | call isOperand _ opens inside ih =>
    rcases isOperand with rfl | rfl
    · exact .call (.inr rfl) ih opens inside
    · trivial
  | _ => trivial

/-- A part is an expression of its own in front of what ends it, but for a name that is written as
the word of a conditional. -/
theorem Derives.alone {level : Level} {ending : Token} (isRead : level.IsRead)
    (derives : Derives parse none (.expr level) tokens value next)
    (notIf : level ≠ .whole → (ahead tokens).isWord "if" = false)
    (isEnd : ending.kind.ends) :
    Derives parse none (.expr .whole) tokens value ending := by
  have moved := derives.before isEnd
  have ends := Token.endsUpTo_of_ends isEnd 4
  rcases level with _ | _ | rank | _
  · exact .whole (.start (.inr rfl) moved) (notIf (by simp)) ends
  · exact .whole moved.widens (notIf (by simp)) ends
  · exact .expression (notIf (by simp))
      (moved.layer_of_le isRead fun lower isLess => ends lower isLess.le) (ends 4 (Nat.le_refl 4))
  · exact moved

/-- A primary expression is a part of every level in front of what ends what stands inside. -/
theorem Derives.of_primary (primary : Derives parse none (.expr .primary) tokens value next)
    (notIf : (ahead tokens).isWord "if" = false) (ends : (Place.expr level).EndsInside next) :
    Derives parse none (.expr level) tokens value next := by
  rcases level with _ | _ | rank | _
  · exact primary
  · exact .start (.inl rfl) primary
  · exact .layer (.start (.inr rfl) primary) ends
  · exact .whole (.start (.inr rfl) primary) notIf fun lower isLess =>
      ends lower (Nat.lt_succ_of_le isLess)

/-- A part may be put in parentheses, if it is no name in front of an arrow and does not start with
a name that is written as the word of a conditional. -/
theorem Derives.enclose {part : Hole} {opening closing : Token} {value : place.Value}
    (around : Derives parse (some part) place tokens value next) (isRead : part.level.IsRead)
    (inside : Derives parse none (.expr part.level) inner part.value part.next)
    (opens : opening.kind = .openParen) (closes : closing.kind = .closeParen)
    (notIf : part.level ≠ .whole → (ahead inner).isWord "if" = false)
    (noBinder : part.next.kind = .arrow → ∀ word, inner = [word] → word.kind ≠ .word) :
    Derives parse none place
      (tokens.flatMap fun token =>
        if token.kind = .finish then opening :: (inner ++ [closing]) else [token]) value next := by
  have primary : Derives parse none (.expr .primary) (opening :: (inner ++ [closing])) part.value
      part.next :=
    .enclosed opens closes (inside.alone isRead notIf (by rw [closes]; rfl)) noBinder
  have enclosed := primary.of_primary (by simp [Token.isWord, opens]) inside.endsInside
  refine around.transfer (fun token notHole => if_neg notHole) (fun token isHole => .inl ?_)
    (fun other isPart token isHole => ?_) next (.inl rfl)
  · simp [isHole, opens]
  · cases isPart
    simpa [isHole] using enclosed

end Weave
