import Weave.Proofs.Text.Occurrences
import Weave.Text.TopLevel

namespace Weave.Text

open List

/-!
# Cuts outside brackets

A text is cut at the delimiters behind which no bracket is open, from the left and as often as it
may be cut, and at no other place.
-/

variable {delimiter : Char} {whole before rest segment : List Char} {start : Nat}

/-- The delimiter stands in the text at the place, and no bracket is open behind it; a bracket that
closes nothing does not count. -/
def isTopLevel (delimiter : Char) (text : List Char) (place : Nat) : Bool :=
  text[place]? == some delimiter && (text.take (place + 1)).foldl bracketDepth 0 == 0

/-- The places at which a text may be cut: all, or only the first of them. -/
def permitted : Option Nat → List Nat → List Nat
  | none, places => places
  | some most, places => places.take most

theorem splitTopLevelFrom_eq (isWhole : before ++ rest = whole)
    (isSegment : segment.reverse = before.drop start) (isBehind : start ≤ before.length)
    (cuts : Option Nat) :
    splitTopLevelFrom delimiter (before.foldl bracketDepth 0) cuts segment rest =
      segmentsBetween 1 whole start
        (permitted cuts
          ((range' before.length rest.length).filter (isTopLevel delimiter whole))) := by
  induction rest generalizing before segment start cuts with
  | nil =>
    obtain rfl : before = whole := by simpa using isWhole
    cases cuts <;> simp [splitTopLevelFrom, permitted, segmentsBetween, isSegment]
  | cons char rest ih =>
    have goesOn := @ih (before ++ [char])
    simp only [append_assoc, singleton_append, isWhole, foldl_append, foldl_cons, foldl_nil,
      length_append, length_singleton, forall_const] at goesOn
    have isHere : isTopLevel delimiter whole before.length =
        (char = delimiter && bracketDepth (before.foldl bracketDepth 0) char = 0 : Bool) := by
      rw [isTopLevel, ← isWhole, ← singleton_append (l := rest), ← append_assoc,
        take_left' (by simp)]
      simp [Bool.beq_eq_decide_eq]
    have keeps := @goesOn (char :: segment) start
      (by rw [reverse_cons, isSegment, drop_append_of_le_length isBehind]) (by omega)
    rw [splitTopLevelFrom, length_cons, range'_succ, filter_cons, ← isHere]
    cases isTopLevel delimiter whole before.length with
    | false => simp [keeps]
    | true =>
      have cut := @goesOn [] (before.length + 1) (by simp) (Nat.le_refl _)
      have isHeld : (whole.drop start).take (before.length - start) = segment.reverse := by
        rw [← isWhole, drop_append_of_le_length isBehind, take_left' (by simp), isSegment]
      rcases cuts with _ | _ | most
      · simp [mayCut, cut, permitted, segmentsBetween, isHeld]
      · simp [mayCut, keeps, permitted]
      · simp [mayCut, cut, permitted, segmentsBetween, isHeld]

theorem intercalate_splitTopLevelFrom (depth : Nat) (cuts : Option Nat) :
    splitTopLevelFrom delimiter depth cuts segment rest ≠ [] ∧
      intercalate [delimiter] (splitTopLevelFrom delimiter depth cuts segment rest) =
        segment.reverse ++ rest := by
  fun_induction splitTopLevelFrom delimiter depth cuts segment rest with
  | case1 => simp
  | case2 _ _ _ _ _ _ _ ih =>
    rw [intercalate_cons_of_ne_nil ih.1, ih.2]
    simp_all
  | case3 _ _ _ _ _ _ _ ih => simpa using ih

/-- Cutting a text outside brackets leaves the segments between the delimiters behind which no
bracket is open, all of them or as many of the first as may be cut at; joined, they are the text. -/
theorem splitTopLevel_cuts_exactly (delimiter : Char) (cuts : Option Nat) (text : List Char) :
    splitTopLevel delimiter cuts text = segmentsBetween 1 text 0
        (permitted cuts ((List.range text.length).filter (isTopLevel delimiter text))) ∧
      intercalate [delimiter] (splitTopLevel delimiter cuts text) = text := by
  refine ⟨?_, (intercalate_splitTopLevelFrom 0 cuts).2⟩
  rw [range_eq_range']
  exact @splitTopLevelFrom_eq _ _ [] _ [] 0 rfl rfl (Nat.le_refl 0) cuts

end Weave.Text
