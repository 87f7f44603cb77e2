import Weave.Proofs.Grammar.Enclosed

namespace Weave

open List Token.Kind

/-!
# Closed expressions

An expression between two brackets that belong together, or a single token, is a primary expression
wherever it stands, as long as no arrow makes parameters of it.
-/

variable {parse : TextParser} {place : Place} {level : Level}
  {tokens front back : List Token} {token next other ending : Token} {value : Expr}

/-- A single token, or tokens between a bracket and the one that closes it. -/
inductive Closed : List Token → Prop
  | token {token : Token} (plain : token.kind.isPlain = true) : Closed [token]
  | group {opening closing : Token} {inner : List Token} (opens : opening.kind.opens = true)
      (closes : closing.kind.closes = true) (settles : Settles 0 inner) :
      Closed (opening :: (inner ++ [closing]))

theorem Closed.settles (closed : Closed tokens) : Settles 0 tokens := by
  cases closed with
  | token plain => exact (Settles.cons_of_plain plain).mpr rfl
  | @group _ closing _ opens closes settles =>
    have closingSettles : Settles 1 [closing] := (Settles.cons_of_closes closes).mpr rfl
    exact (Settles.cons_of_opens opens).mpr (settles.append closingSettles)

/-- Closed tokens cannot be cut where no bracket is open. -/
theorem Closed.not_append (closed : Closed (front ++ back)) (notEmpty : front ≠ [])
    (isMore : back ≠ []) :
    ¬ Settles 0 front := by
  intro settles
  obtain ⟨left, backSettles⟩ := closed.settles.suffix (suffix_append front back)
  have isSettled := (settles.append backSettles).unique closed.settles
  obtain rfl : left = 0 := by omega
  obtain ⟨first, others, rfl⟩ := exists_cons_of_ne_nil notEmpty
  generalize isWhole : first :: others ++ back = tokens at closed
  cases closed with
  | token => simp [isMore] at isWhole
  | group _ closes inner =>
    obtain ⟨rfl, isInner⟩ := cons.inj isWhole
    exact isMore (suffix_eq_nil_of_settles inner closes ⟨others, isInner⟩ backSettles)

theorem Closed.eq_nil_of_word {word : Token} (closed : Closed (word :: rest))
    (isWord : word.kind = .word) :
    rest = [] := by
  by_contra isMore
  refine @Closed.not_append [word] rest closed (by simp) isMore ?_
  simp [Settles, isWord, opens, closes]

/-! ## Brackets of what is derived -/

/-- How many brackets are open where the place starts. -/
def Place.depth : Place → Nat
  | .items .angle _ | .list .angle _ => 0
  | .items _ _ | .list _ _ | .alternatives => 1
  | _ => 0

/-- The items of the place are no items themselves. -/
def Place.IsFlat : Place → Prop
  | .items _ item | .list _ item => item.depth = 0 ∧ item.IsFlat
  | _ => True

theorem Derives.settles {value : place.Value} (derives : Derives parse none place tokens value next)
    (isFlat : place.IsFlat) :
    Settles place.depth tokens := by
  induction derives with
  | hole isHole => cases isHole
  | @literal token _ _ isRead =>
    cases isKind : token.kind <;>
      simp [Token.literal, isKind, Settles, opens, closes, Place.depth]
        at isRead ⊢
  | property _ _ _ selects =>
    cases selects <;>
      simp_all [Settles, opens, closes, Place.depth, Place.IsFlat,
        Settles.append_iff_of_zero]
  | join _ combines _ _ ihBase ih =>
    have isPlain := (operatorsAt_kind combines).2.2
    exact (ihBase isFlat).append ((Settles.cons_of_plain isPlain).mpr (ih isFlat))
  | @empty bracket =>
    cases bracket <;>
      simp_all [Settles, Bracket.close, opens, closes, Place.depth]
  | @filled _ bracket _ _ _ _ _ ih => cases bracket <;> exact ih isFlat
  | @last _ _ _ bracket _ _ _ _ _ ih =>
    have itemSettles := ih isFlat.2
    rw [isFlat.1] at itemSettles
    cases bracket <;>
      simp_all [Settles, opens, closes, Place.depth, Bracket.close,
        itemSettles.append_iff_of_zero]
  | @more _ _ _ bracket _ _ _ _ _ _ _ _ ihFirst =>
    have itemSettles := ihFirst isFlat.2
    rw [isFlat.1] at itemSettles
    cases bracket <;>
      simp_all [Settles, opens, closes, Place.depth,
        itemSettles.append_iff_of_zero]
  | _ =>
    simp_all [Token.isWord_iff, Settles, opens, closes, Place.depth,
      Place.IsFlat, Settles.append_iff_of_zero, Settles.append_iff_of_one]

/-- What has no items of its own starts with no closing bracket. -/
theorem Derives.list_of_items {bracket : Bracket} {item : Place} {values : List item.Value}
    (items : Derives parse none (.items bracket item) tokens values next)
    (isFlat : (Place.items bracket item).IsFlat) (isEnd : bracket.close.ends) :
    Derives parse none (.list bracket item) tokens values next := by
  have starts {inner : List Token} {value : item.Value} {next : Token} (rest : List Token)
      (only : Derives parse none item inner value next) :
      (ahead (inner ++ rest)).kind ≠ bracket.close := by
    have settles := only.settles isFlat.2
    rw [isFlat.1] at settles
    obtain ⟨first, _, rfl⟩ := exists_cons_of_ne_nil only.ne_nil
    rintro isClose
    exact Settles.not_cons_of_ends (by rw [← isEnd, ← isClose]; rfl) settles
  refine .filled ?_ items
  cases items with
  | last _ _ only => exact starts _ only
  | more _ _ first => exact starts _ first

/-! ## Closed expressions -/

/-- If the tokens are closed, they are a primary expression. -/
def Place.ClosesPrimary (parse : TextParser) :
    (place : Place) → List Token → place.Value → Token → Prop
  | .expr _, tokens, value, next =>
    Closed tokens → Derives parse none (.expr .primary) tokens value next
  | _, _, _, _ => True

theorem Derives.closesPrimary {value : place.Value}
    (derives : Derives parse none place tokens value next) :
    place.ClosesPrimary parse tokens value next := by
  have whole {level : Level} {tokens back : List Token} {value : Expr} {next : Token}
      (base : Derives parse none (.expr level) tokens value next) (isMore : back ≠ [])
      (closed : Closed (tokens ++ back)) :
      False :=
    closed.not_append base.ne_nil isMore (base.settles trivial)
  induction derives with
  | hole isHole => cases isHole
  | literal isRead => exact fun _ => .literal isRead
  | list opens inside => exact fun _ => .list opens inside
  | object opens inside => exact fun _ => .object opens inside
  | lambda opens binders isArrow inside => exact fun _ => .lambda opens binders isArrow inside
  | enclosed opens closes inside noBinder => exact fun _ => .enclosed opens closes inside noBinder
  | start _ first => exact fun _ => first
  | property _ base | safe _ base | index _ base | call _ base | coercion base | coercionWith base
  | matching base | infixCall base | join base =>
    exact fun closed => (whole base (by simp) closed).elim
  | rise _ _ ih | expression _ _ _ ih => exact ih
  | conditional isIf =>
    intro closed
    cases closed.eq_nil_of_word (Token.isWord_iff.mp isIf).1
  | _ => trivial

/-- What a bracket closes is derived whatever stands behind it. -/
def Place.Stays (parse : TextParser) :
    (place : Place) → List Token → place.Value → Prop
  | .items bracket item, tokens, values =>
    ∀ other, Derives parse none (.items bracket item) tokens values other
  | .list bracket item, tokens, values =>
    ∀ other, Derives parse none (.list bracket item) tokens values other
  | _, _, _ => True

theorem Derives.stays {value : place.Value} (derives : Derives parse none place tokens value next) :
    place.Stays parse tokens value := by
  induction derives with
  | hole => trivial
  | last closes ends only => exact fun _ => .last closes ends only
  | more isComma ends first _ _ ih => exact fun other => .more isComma ends first (ih other)
  | empty closes => exact fun _ => .empty closes
  | filled notClosed _ ih => exact fun other => .filled notClosed (ih other)
  | _ => trivial

theorem Closed.notIf (closed : Closed tokens)
    (derives : Derives parse none (.expr .whole) tokens value next) :
    (ahead tokens).isWord "if" = false := by
  cases derives with
  | hole isHole => cases isHole
  | start isOperand | property isOperand | safe isOperand | index isOperand | call isOperand =>
    rcases isOperand with isLevel | isLevel <;> cases isLevel
  | expression notIf => exact notIf
  | conditional isIf => cases closed.eq_nil_of_word (Token.isWord_iff.mp isIf).1

/-- A closed expression is derived in front of everything but an arrow. -/
theorem Closed.derives (closed : Closed tokens)
    (derives : Derives parse none (.expr .whole) tokens value ending)
    (noArrow : next.kind ≠ .arrow) :
    Derives parse none (.expr .primary) tokens value next := by
  cases derives.closesPrimary closed with
  | hole isHole => cases isHole
  | start isOperand | property isOperand | safe isOperand | index isOperand | call isOperand =>
    rcases isOperand with isLevel | isLevel <;> cases isLevel
  | literal isRead => exact .literal isRead
  | list opens inside => exact .list opens (inside.stays next)
  | object opens inside => exact .object opens (inside.stays next)
  | @lambda names _ _ opening _ _ _ opens binders =>
    have settles : Settles 0 (opening :: names) :=
      (Settles.cons_of_opens (by rw [opens]; rfl)).mpr (binders.settles ⟨rfl, trivial⟩)
    exact (closed.not_append (by simp) (by simp) settles).elim
  | enclosed opens closes inside =>
    exact .enclosed opens closes inside fun isArrow => absurd isArrow noArrow

end Weave
