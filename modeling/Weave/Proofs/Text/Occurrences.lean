import Weave.Proofs.Text.Segments

namespace Weave

open List

/-!
# Occurrences of a text

A search finds the occurrences of a needle from the left, each behind the one before it, and leaves
none out.  A text is split at the occurrences that a search finds.
-/

namespace Text

variable {needle whole before rest : List Char} {start : Nat}

/-- Places from a start on at which a needle occurs, apart from each other; every other occurrence
begins inside one that begins before it. -/
structure AreOccurrences (needle whole : List Char) (start : Nat) (places : List Nat) : Prop where
  occur : ∀ place ∈ places, start ≤ place ∧ needle <+: whole.drop place
  apart : places.Pairwise (· + needle.length ≤ ·)
  complete : ∀ place, start ≤ place → needle <+: whole.drop place →
    ∃ found ∈ places, found ≤ place ∧ place < found + needle.length

/-- The segments of a text from a start on, between pieces of one size at places. -/
def segmentsBetween (size : Nat) (whole : List Char) : Nat → List Nat → List (List Char)
  | start, [] => [whole.drop start]
  | start, place :: rest =>
    (whole.drop start).take (place - start) :: segmentsBetween size whole (place + size) rest

theorem rest_of_cutAt? (cut : cutAt? needle (whole.drop start) = some (before, rest)) :
    rest = whole.drop (start + before.length + needle.length) := by
  rw [Nat.add_assoc, ← drop_drop, eq_append_of_cutAt? cut, ← length_append, drop_left]

/-- The first occurrence is in front of those in what is behind it. -/
theorem AreOccurrences.cons (cut : cutAt? needle (whole.drop start) = some (before, rest))
    (behind : AreOccurrences needle whole (start + before.length + needle.length) places) :
    AreOccurrences needle whole start ((start + before.length) :: places) where
  occur := by
    refine forall_mem_cons.mpr ⟨⟨Nat.le_add_right .., ?_⟩, fun place mem => ?_⟩
    · rw [← drop_drop, eq_append_of_cutAt? cut, append_assoc, drop_left]
      exact prefix_append ..
    · have := behind.occur place mem
      exact ⟨by omega, this.2⟩
  apart := pairwise_cons.mpr ⟨fun place mem => (behind.occur place mem).1, behind.apart⟩
  complete place isLater occurs := by
    by_cases isBehind : start + before.length + needle.length ≤ place
    · obtain ⟨found, mem, around⟩ := behind.complete place isBehind occurs
      exact ⟨found, .tail _ mem, around⟩
    · refine ⟨_, mem_cons_self, ?_, by omega⟩
      obtain ⟨back, isBack⟩ := occurs
      have pieces := take_append_drop (place - start) (whole.drop start)
      rw [drop_drop, Nat.add_sub_cancel' isLater, ← isBack, ← append_assoc] at pieces
      have isFirst := length_le_of_cutAt? cut pieces.symm
      rw [length_take] at isFirst
      omega

end Text

namespace Core

open Text

variable {needle whole : List Char} {start : Nat}

/-- With a step for every character, a search goes on to the end. -/
theorem areOccurrences_occurrencesFrom (notEmpty : needle ≠ [])
    (enough : whole.length - start < fuel) :
    AreOccurrences needle whole start (occurrencesFrom needle fuel start (whole.drop start)) := by
  have isPositive := length_pos_iff.mpr notEmpty
  induction fuel generalizing start with
  | zero => omega
  | succ _ ih =>
    rw [occurrencesFrom]
    cases cut : cutAt? needle (whole.drop start) with
    | none =>
      refine ⟨by simp, .nil, fun place isLater occurs => ?_⟩
      refine absurd ?_ ((cutAt?_eq_none_iff notEmpty _).mp cut)
      obtain ⟨more, rfl⟩ := Nat.exists_eq_add_of_le isLater
      rw [← drop_drop] at occurs
      exact occurs.isInfix.trans (drop_suffix ..).isInfix
    | some pair =>
      obtain ⟨before, rest⟩ := pair
      have noNeedle : needle.isEmpty = false := by simpa using notEmpty
      have isRest := rest_of_cutAt? cut
      have lengths := congrArg length (eq_append_of_cutAt? cut)
      simp only [length_append, length_drop] at lengths
      simp only [noNeedle, Bool.false_eq_true, if_false, isRest]
      exact .cons cut (ih (by omega))

/-- A text is split where a search finds the separator. -/
theorem splitWithin_eq (notEmpty : needle ≠ []) (whole : List Char) (start : Nat) :
    splitWithin needle fuel (whole.drop start) =
      segmentsBetween needle.length whole start
        (occurrencesFrom needle fuel start (whole.drop start)) := by
  induction fuel generalizing start with
  | zero => rfl
  | succ _ ih =>
    rw [splitWithin, occurrencesFrom]
    cases cut : cutAt? needle (whole.drop start) with
    | none => rfl
    | some pair =>
      obtain ⟨before, rest⟩ := pair
      have noNeedle : needle.isEmpty = false := by simpa using notEmpty
      have isBefore : (whole.drop start).take before.length = before := by
        rw [eq_append_of_cutAt? cut, append_assoc, take_left]
      simp only [noNeedle, Bool.false_eq_true, if_false, rest_of_cutAt? cut, segmentsBetween, ih,
        Nat.add_sub_cancel_left, isBefore]

theorem occurrencesFrom_nil (enough : whole.length < fuel) :
    occurrencesFrom [] fuel start whole = range' start (whole.length + 1) := by
  induction fuel generalizing start whole with
  | zero => omega
  | succ _ ih =>
    cases whole with
    | nil => rfl
    | cons =>
      rw [length_cons, range'_succ, ← ih (Nat.lt_of_succ_lt_succ enough)]
      rfl

/--
A search for a needle, unless that is a slash or stands between slashes, finds its occurrences from
the left, and splitting leaves what is between them.  The empty needle is found everywhere.
-/
theorem find_agrees_with_splitBy (text : String) :
    (∀ needle : String, needle ≠ "" → needle ≠ "/" → (∀ inner, needle ≠ "/" ++ inner ++ "/") →
      ∃ places, find (.text text) (.text needle) = .ok (counts places) ∧
        places.Pairwise (· < ·) ∧ AreOccurrences needle.toList text.toList 0 places ∧
        splitBy (.text text) (.text needle) =
          .ok (.array ((segmentsBetween needle.length text.toList 0 places).map fun segment =>
            .text (String.ofList segment)))) ∧
    find (.text text) (.text "") = .ok (counts (List.range (text.length + 1))) := by
  refine ⟨fun needle notEmpty notSlash notBetween => ?_, ?_⟩
  · have hasNeedle : needle.toList ≠ [] := by simpa using notEmpty
    have noPattern := slashed?_eq_none notSlash notBetween
    have found : AreOccurrences _ text.toList 0 (occurrences needle.toList text.toList) :=
      areOccurrences_occurrencesFrom hasNeedle (Nat.lt_succ_self _)
    have segments : splitOn needle.toList text.toList =
        segmentsBetween needle.length text.toList 0 (occurrences needle.toList text.toList) := by
      rw [← String.length_toList]
      exact splitWithin_eq hasNeedle text.toList 0
    refine ⟨_, ?_, found.apart.imp fun apart => ?_, found, ?_⟩
    · simp [find, noPattern]
    · have := length_pos_iff.mpr hasNeedle
      omega
    · simp only [splitBy, Value.toText_text, noPattern]
      change Except.ok (splitAtText text needle) = _
      simp [splitAtText, notEmpty, splitString, segments, Function.comp_def]
  · have everywhere : occurrences [] text.toList = List.range (text.length + 1) := by
      rw [range_eq_range', ← String.length_toList]
      exact occurrencesFrom_nil (Nat.lt_succ_self _)
    exact congrArg (fun places => Except.ok (counts places)) everywhere

/-- The occurrence that begins inside the first one is not found. -/
theorem find_agrees_with_splitBy_overlap :
    ("aa" ≠ "" ∧ "aa" ≠ "/" ∧ ∀ inner, "aa" ≠ "/" ++ inner ++ "/") ∧
      ∃ places, find (.text "aaabaa") (.text "aa") = .ok (counts places) ∧
        places.Pairwise (· < ·) ∧ AreOccurrences "aa".toList "aaabaa".toList 0 places ∧
        splitBy (.text "aaabaa") (.text "aa") =
          .ok (.array ((segmentsBetween "aa".length "aaabaa".toList 0 places).map fun segment =>
            .text (String.ofList segment))) := by
  have notBetween : ∀ inner, "aa" ≠ "/" ++ inner ++ "/" := by
    intro inner same
    simpa using congrArg (head? ∘ String.toList) same
  exact ⟨⟨by decide, by decide, notBetween⟩,
    (find_agrees_with_splitBy "aaabaa").1 "aa" (by decide) (by decide) notBetween⟩

end Core

end Weave
