import Mathlib
import Weave.Module.Load
import Weave.Proofs.Format.Held

namespace Weave

open List

/-!
# Values without marks

A value made of lists and of objects whose keys are names is given out without marks of elements,
and giving it out again changes nothing.
-/

namespace Value

variable {value : Value} {items : List Value} {entries : Entries} {allowed : Origin → Prop}

/-- The value is made of lists and of objects with names for keys, all of allowed origins. -/
inductive IsTree (allowed : Origin → Prop) : Value → Prop
  | scalar {value : Value} (isScalar : value.isScalar = true) : IsTree allowed value
  | list {items : List Value} (isAllowed : allowed origin)
      (each : ∀ item ∈ items, IsTree allowed item) : IsTree allowed (.list origin items)
  | object {entries : Entries} (isAllowed : allowed origin)
      (named : ∀ entry ∈ entries, ∃ name, entry.1 = .text name)
      (each : ∀ entry ∈ entries, IsTree allowed entry.2) : IsTree allowed (.object origin entries)

/-- The value holds no marks and is given out as it is. -/
structure IsBare (value : Value) : Prop where
  isTree : IsTree (· = .data) value
  fixed : value.unmarked = .ok value

theorem isBare_of_isScalar (isScalar : value.isScalar) : IsBare value :=
  ⟨.scalar isScalar, by cases value <;> first | rfl | cases isScalar⟩

theorem isBare_array (each : ∀ item ∈ items, IsBare item) : IsBare (.array items) := by
  refine ⟨.list rfl fun item mem => (each item mem).isTree, ?_⟩
  rw [unmarked, unmarkedAll_eq_self fun item mem => (each item mem).fixed]
  rfl

theorem isTextOnly_of_named (named : ∀ entry ∈ entries, ∃ name, entry.1 = Key.text name) :
    ∃ isOnly, isTextOnly entries = .ok isOnly := by
  induction entries with
  | nil => exact ⟨true, rfl⟩
  | cons entry _ ih =>
    obtain ⟨⟨name, isName⟩, others⟩ := forall_mem_cons.mp named
    obtain ⟨isOnly, isRest⟩ := ih others
    obtain ⟨_, value⟩ := entry
    obtain rfl : _ = Key.text name := isName
    exact ⟨_, by rw [isTextOnly, isRest]; rfl⟩

/-- Bare entries make a bare object, unless they are given out as their text. -/
theorem isBare_record (named : ∀ entry ∈ entries, ∃ name, entry.1 = Key.text name)
    (each : ∀ entry ∈ entries, IsBare entry.2)
    (isKept : ∀ found, textOf? entries = some found → isTextOnly entries = .ok false) :
    IsBare (.record entries) := by
  refine ⟨.object rfl named fun entry mem => (each entry mem).isTree, ?_⟩
  rw [unmarked, unmarkedEntries_eq_self fun entry mem => (each entry mem).fixed]
  cases isText : textOf? entries with
  | none => simp [isText, bind, Except.bind, pure, Except.pure]
  | some found => simp [isText, isKept found isText, bind, Except.bind, pure, Except.pure]

theorem unmarkedAll_of_each
    (each : ∀ item ∈ items, ∃ bare, item.unmarked = .ok bare ∧ IsBare bare) :
    ∃ bares, unmarkedAll items = .ok bares ∧ ∀ bare ∈ bares, IsBare bare := by
  induction items with
  | nil => exact ⟨[], rfl, by simp⟩
  | cons _ _ ih =>
    obtain ⟨⟨bare, isItem, isBare⟩, others⟩ := forall_mem_cons.mp each
    obtain ⟨bares, areItems, areBare⟩ := ih others
    exact ⟨bare :: bares, by rw [unmarkedAll, isItem, areItems]; rfl,
      forall_mem_cons.mpr ⟨isBare, areBare⟩⟩

theorem unmarkedEntries_of_each (named : ∀ entry ∈ entries, ∃ name, entry.1 = Key.text name)
    (each : ∀ entry ∈ entries, ∃ bare, entry.2.unmarked = .ok bare ∧ IsBare bare) :
    ∃ bares, unmarkedEntries entries = .ok bares ∧
      (∀ entry ∈ bares, ∃ name, entry.1 = .text name) ∧ ∀ entry ∈ bares, IsBare entry.2 := by
  induction entries with
  | nil => exact ⟨[], rfl, by simp, by simp⟩
  | cons entry _ ih =>
    rw [forall_mem_cons] at named
    obtain ⟨⟨bare, isEntry, isBare⟩, others⟩ := forall_mem_cons.mp each
    obtain ⟨bares, areEntries, areNamed, areBare⟩ := ih named.2 others
    exact ⟨(entry.1, bare) :: bares, by rw [unmarkedEntries, isEntry, areEntries]; rfl,
      forall_mem_cons.mpr ⟨named.1, areNamed⟩, forall_mem_cons.mpr ⟨isBare, areBare⟩⟩

theorem exists_isBare (isTree : IsTree allowed value) :
    ∃ bare, value.unmarked = .ok bare ∧ IsBare bare := by
  induction isTree with
  | @scalar value isScalar =>
    have isBare := isBare_of_isScalar isScalar
    exact ⟨value, isBare.fixed, isBare⟩
  | list _ _ ih =>
    obtain ⟨bares, areBares, each⟩ := unmarkedAll_of_each ih
    exact ⟨.array bares, by rw [unmarked, areBares]; rfl, isBare_array each⟩
  | @object origin _ _ named _ ih =>
    obtain ⟨bares, areBares, bareNamed, each⟩ := unmarkedEntries_of_each named ih
    cases isText : textOf? bares with
    | none =>
      refine ⟨.record bares, ?_, isBare_record bareNamed each (by simp [isText])⟩
      cases origin <;> simp [unmarked, areBares, isText, bind, Except.bind, pure, Except.pure]
    | some found =>
      have isBare := each _ (mem_of_textOf? isText)
      obtain ⟨isOnly, isTextOnly⟩ := isTextOnly_of_named bareNamed
      cases origin with
      | xml =>
        refine ⟨found, ?_, isBare⟩
        simp [unmarked, areBares, isText, bind, Except.bind, pure, Except.pure]
      | data =>
        refine ⟨bif isOnly then found else .record bares, ?_, ?_⟩
        · cases isOnly <;>
            simp [unmarked, areBares, isText, isTextOnly, bind, Except.bind, pure, Except.pure]
        · cases isOnly with
          | true => exact isBare
          | false => exact isBare_record bareNamed each fun _ _ => isTextOnly

theorem normalise_of_isTree (isTree : IsTree allowed value) : value.normalise = value := by
  induction isTree with
  | @scalar value isScalar => cases value <;> first | rfl | cases isScalar
  | list _ _ ih => rw [normalise, normaliseAll_eq_map, map_congr_left ih, map_id']
  | object _ _ _ ih =>
    rw [normalise, normaliseEntries_eq_map, map_congr_left fun entry mem =>
      by rw [ih entry mem], map_id']

end Value

/-- A value is given out without marks, and what is given out is given out as it is, also by a run
that hands its payload on. -/
theorem Value.unmarked_projects {value : Value} (isTree : IsTree (fun _ => True) value) :
    ∃ bare, value.unmarked = .ok bare ∧ IsTree (· = .data) bare ∧ bare.unmarked = .ok bare ∧
      ∀ (session : Session) (ambient : Ambient) (library : Option Library) (bindings : Bindings)
        (isRendered : Bool), ((session.run ambient library
          ⟨⟨"payload", bare, bindings, isRendered⟩, none, []⟩).result.map Prod.fst) = .ok bare := by
  obtain ⟨bare, isGiven, isBare⟩ := exists_isBare isTree
  refine ⟨bare, isGiven, isBare.isTree, isBare.fixed, ?_⟩
  intro session ambient library bindings isRendered
  have isRead : Session.parse "payload" = .ok ⟨Header.plain, .name "payload" ⟨1, 1⟩⟩ := by cbv
  have isFinished : bare.normalise.unmarked = .ok bare := by
    rw [normalise_of_isTree isBare.isTree, isBare.fixed]
  simp only [Session.run, Session.runUsing, Session.payloadOf, isRead]
  cases library <;> cases isRendered
  all_goals
    change Except.map Prod.fst ((liftM bare.normalise.unmarked : Outcome Value) >>= fun finished =>
      pure (finished, _)).result = _
    rw [isFinished]
    rfl

/-- The text of an element is itself an object with nothing but a text. -/
theorem Value.unmarked_projects_nested :
    ∃ bare, Value.unmarked (.object .xml [(.text "#text", .record [(.text "#text", .int 1)])]) =
      .ok bare ∧ bare.unmarked = .ok bare := by
  have isNamed (value : Value) :
      ∀ entry ∈ [(Key.text "#text", value)], ∃ name, entry.1 = .text name :=
    forall_mem_singleton.mpr ⟨_, rfl⟩
  have inner : IsTree (fun _ => True) (.record [(.text "#text", .int 1)]) :=
    .object trivial (isNamed _) (forall_mem_singleton.mpr (.scalar rfl))
  obtain ⟨bare, isGiven, _, isFixed, _⟩ :=
    unmarked_projects (.object trivial (isNamed _) (forall_mem_singleton.mpr inner))
  exact ⟨bare, isGiven, isFixed⟩

end Weave
