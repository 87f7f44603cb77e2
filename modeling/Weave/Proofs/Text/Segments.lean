import Mathlib.Order.Bounds.Defs
import Weave.Core.Texts
import Weave.Proofs.Text.Search

namespace Weave

open List

/-!
# Segments of a text

Cutting a text at a separator, from the left and as often as possible, leaves segments without the
separator that give the text back when they are joined.  No other way to cut leaves more segments.
-/

namespace Text

variable {needle text before rest : List Char} {segments : List (List Char)}

theorem length_le_of_cutAt? {front : List Char} (cut : cutAt? needle text = some (before, rest))
    (occurs : text = front ++ needle ++ back) :
    before.length ≤ front.length := by
  induction front generalizing text before with
  | nil =>
    rw [nil_append] at occurs
    cases text with
    | nil =>
      rw [cutAt?] at cut
      split at cut <;> simp_all
    | cons =>
      rw [cutAt?, occurs, after?_append_self] at cut
      simp_all
  | cons _ _ ih =>
    rw [occurs, cons_append, cons_append, cutAt?] at cut
    split at cut
    · simp_all
    · simp only [Option.map_eq_some_iff, Prod.exists] at cut
      obtain ⟨within, remainder, cutRest, rfl, rfl⟩ := cut
      exact Nat.succ_le_succ (ih cutRest rfl)

/-- Segments that make up a text, none with the needle inside, at most as many as there can be. -/
structure CutsInto (needle text : List Char) (segments : List (List Char)) : Prop where
  joined : needle.intercalate segments = text
  free : ∀ segment ∈ segments, ¬ needle <:+: segment
  most : ∀ parts, needle.intercalate parts = text → parts.length ≤ segments.length

theorem CutsInto.single (notInside : ¬ needle <:+: text) : CutsInto needle text [text] where
  joined := intercalate_singleton
  free := forall_mem_singleton.mpr notInside
  most parts isText := by
    rcases parts with _ | ⟨first, _ | ⟨second, others⟩⟩
    · exact Nat.zero_le 1
    · exact Nat.le_refl 1
    · rw [intercalate_cons_cons] at isText
      exact absurd ⟨first, _, isText⟩ notInside

/-- Whichever way the text is cut, all segments but the first lie behind the first occurrence. -/
theorem CutsInto.cons (notEmpty : needle ≠ []) (cut : cutAt? needle text = some (before, rest))
    (cutsRest : CutsInto needle rest segments) :
    CutsInto needle text (before :: segments) where
  joined := by
    have hasSegments : segments ≠ [] := by
      rintro rfl
      simpa using cutsRest.most [rest] intercalate_singleton
    obtain ⟨second, others, rfl⟩ := exists_cons_of_ne_nil hasSegments
    rw [intercalate_cons_cons, cutsRest.joined, ← eq_append_of_cutAt? cut]
  free := forall_mem_cons.mpr
    ⟨(cutAt?_eq_none_iff notEmpty before).mp (cutAt?_eq_some notEmpty cut).2, cutsRest.free⟩
  most parts isText := by
    rcases parts with _ | ⟨first, _ | ⟨second, others⟩⟩
    · exact Nat.zero_le _
    · exact Nat.le_add_left 1 _
    · -- What another way to cut has behind its first segment lies at the end of the rest.
      rw [intercalate_cons_cons] at isText
      have isLater := length_le_of_cutAt? cut isText.symm
      have isCut := eq_append_of_cutAt? cut
      have shorter : (needle.intercalate (second :: others)).length ≤ rest.length := by
        have lengths := congrArg length (isText.trans isCut)
        simp only [length_append] at lengths
        omega
      obtain ⟨between, isRest⟩ : needle.intercalate (second :: others) <:+ rest :=
        suffix_of_suffix_length_le ⟨_, isText⟩ ⟨_, isCut.symm⟩ shorter
      have joinedRest : needle.intercalate ((between ++ second) :: others) = rest := by
        rw [← isRest]
        cases others <;> simp
      exact Nat.succ_le_succ (cutsRest.most ((between ++ second) :: others) joinedRest)

/-- With a cut for every character, a text is cut as often as possible. -/
theorem cutsInto_splitWithin (notEmpty : needle ≠ []) (enough : text.length < cuts) :
    CutsInto needle text (splitWithin needle cuts text) := by
  induction cuts generalizing text with
  | zero => cases enough
  | succ _ ih =>
    rw [splitWithin]
    cases cut : cutAt? needle text with
    | none => exact .single ((cutAt?_eq_none_iff notEmpty text).mp cut)
    | some =>
      refine .cons notEmpty cut (ih ?_)
      have lengths := congrArg length (eq_append_of_cutAt? cut)
      have := length_pos_iff.mpr notEmpty
      simp only [length_append] at lengths
      omega

/-- The numbers of occurrences of a separator that a text holds without overlaps. -/
def occurrenceCounts (separator text : String) : Set Nat :=
  {count | ∃ parts : List String, parts.length = count + 1 ∧ separator.intercalate parts = text}

end Text

namespace Core

/-- A text that is no slash, and not between two slashes, writes no pattern. -/
theorem slashed?_eq_none {text : String} (notSlash : text ≠ "/")
    (notBetween : ∀ inner, text ≠ "/" ++ inner ++ "/") :
    slashed? text.toList = none := by
  rw [slashed?, if_neg]
  simp only [Text.endsWith, Text.startsWith, Bool.and_eq_true, Option.isSome_iff_exists]
  rintro ⟨⟨behind, starts⟩, ⟨ahead, ends⟩⟩
  have isStart := Text.eq_append_of_after? starts
  have isEnd := congrArg reverse (Text.eq_append_of_after? ends)
  rw [reverse_reverse, isStart, reverse_append] at isEnd
  cases front : ahead.reverse with
  | nil =>
    rw [front] at isEnd
    exact notSlash (String.toList_inj.mp (isStart.trans isEnd))
  | cons _ inner =>
    rw [front, cons_append] at isEnd
    refine notBetween (String.ofList inner) (String.toList_inj.mp ?_)
    simp [isStart, (cons.inj isEnd).2]

theorem mapM_textOrEmpty (texts : List String) :
    (texts.map Value.text).mapM textOrEmpty = .ok texts := by
  induction texts with
  | nil => rfl
  | cons text _ ih =>
    rw [map_cons, mapM_cons, ih]
    rfl

/--
Unless the separator is a slash or stands between slashes, joining undoes splitting.  Every segment
but the first stands for an occurrence of the separator, and none holds one.
-/
theorem joinBy_of_splitBy {separator : String} (text : String) (notEmpty : separator ≠ "")
    (notSlash : separator ≠ "/") (notBetween : ∀ inner, separator ≠ "/" ++ inner ++ "/") :
    ∃ (segments : List String) (count : Nat),
      splitBy (.text text) (.text separator) = .ok (.array (segments.map .text)) ∧
        joinBy (.array (segments.map .text)) (.text separator) = .ok (.text text) ∧
        segments.length = count + 1 ∧ IsGreatest (Text.occurrenceCounts separator text) count ∧
        ∀ segment ∈ segments, ¬ separator.toList <:+: segment.toList := by
  have hasNeedle : separator.toList ≠ [] := by simpa using notEmpty
  have cuts := Text.cutsInto_splitWithin hasNeedle (Nat.lt_succ_self text.toList.length)
  have listed :
      (Text.splitString separator text).map String.toList =
        Text.splitWithin separator.toList (text.toList.length + 1) text.toList := by
    simp [Text.splitString, Text.splitOn]
  rw [← listed] at cuts
  have joined : separator.intercalate (Text.splitString separator text) = text := by
    rw [← String.toList_inj, String.toList_intercalate, cuts.joined]
  obtain ⟨count, isCount⟩ : ∃ count, (Text.splitString separator text).length = count + 1 := by
    have atLeastOne := cuts.most [text.toList] intercalate_singleton
    rw [length_map] at atLeastOne
    exact Nat.exists_eq_add_of_le' atLeastOne
  refine ⟨Text.splitString separator text, count, ?_, ?_, isCount, ⟨⟨_, isCount, joined⟩, ?_⟩, ?_⟩
  · simp only [splitBy, Value.toText_text, slashed?_eq_none notSlash notBetween]
    exact congrArg Except.ok (if_neg (by simpa using notEmpty))
  · rw [joinBy, mapM_textOrEmpty]
    exact congrArg (fun whole => Except.ok (Value.text whole)) joined
  · rintro other ⟨parts, length, isText⟩
    have atMost := cuts.most (parts.map String.toList) (by rw [← String.toList_intercalate, isText])
    rw [length_map, length_map, length, isCount] at atMost
    exact Nat.le_of_succ_le_succ atMost
  · exact fun segment member => cuts.free _ (mem_map_of_mem member)

/-- The first two of three letters in a row are an occurrence, and the third is none. -/
theorem joinBy_of_splitBy_overlap : ("aa" ≠ "" ∧ "aa" ≠ "/" ∧ ∀ inner, "aa" ≠ "/" ++ inner ++ "/") ∧
      ∃ (segments : List String) (count : Nat),
        splitBy (.text "aaabaa") (.text "aa") = .ok (.array (segments.map .text)) ∧
          joinBy (.array (segments.map .text)) (.text "aa") = .ok (.text "aaabaa") ∧
          segments.length = count + 1 ∧ IsGreatest (Text.occurrenceCounts "aa" "aaabaa") count ∧
          ∀ segment ∈ segments, ¬ "aa".toList <:+: segment.toList := by
  have notBetween : ∀ inner, "aa" ≠ "/" ++ inner ++ "/" := by
    intro inner same
    simpa using congrArg (head? ∘ String.toList) same
  exact ⟨⟨by decide, by decide, notBetween⟩,
    joinBy_of_splitBy "aaabaa" (by decide) (by decide) notBetween⟩

end Core

end Weave
