import Weave.Proofs.Exchange.Values
import Weave.Proofs.Json.RoundTrip

namespace Weave.Json

open List

/-!
# JSON texts inside of others

On one line the text of a value does not depend on its depth.  Yet the outermost object repeats the
key of a repeated element and keeps attributes and text, where all others have a list for repeated
elements and lose the rest.
-/

variable {style : Style} {value : Value} {entries : Entries}

theorem enclose_compact (compact : style.indent = none) (level other : Nat) :
    enclose style level = enclose style other := by
  funext opening closing parts
  simp only [enclose, compact]

theorem writeSimple_compact (compact : style.indent = none) (value : Value) (level other : Nat) :
    writeSimple style level value = writeSimple style other value := by
  induction value using Value.byParts generalizing level other with
  | list _ items ih =>
    have sameItems : writeItems style (level + 1) items = writeItems style (other + 1) items := by
      induction items with
      | nil => rfl
      | cons _ _ ihRest =>
        rw [forall_mem_cons] at ih
        rw [writeItems, writeItems, ih.1 _ (other + 1), ihRest ih.2]
    rw [writeSimple, writeSimple, sameItems, enclose_compact compact level other]
  | object _ entries ih =>
    have sameEntries :
        writeEntries style (level + 1) entries = writeEntries style (other + 1) entries := by
      induction entries with
      | nil => rfl
      | cons _ _ ihRest =>
        rw [forall_mem_cons] at ih
        rw [writeEntries, writeEntries, ih.1 _ (other + 1), ihRest ih.2]
    rw [writeSimple, writeSimple, sameEntries, enclose_compact compact level other]
  | scalar value isScalar => cases value <;> first | rfl | cases isScalar
  | tuple | function => rfl

/-- The value is simplified inside of others to what is written where it stands alone: it holds no
repeated elements itself, and if it is an element it has children and nothing else. -/
def IsUniform : Value → Prop
  | .object origin entries =>
    (∀ entry ∈ entries, repetitions entry = [entry]) ∧
      (origin = .xml → entries ≠ [] ∧ ∀ entry ∈ entries, ∃ name, entry.1 = .text name ∧
        name ≠ textEntry ∧ isAttributeName name = false)
  | _ => True

theorem simplifyNode_of_children (areChildren : ∀ entry ∈ entries, ∃ name,
      entry.1 = .text name ∧ name ≠ textEntry ∧ isAttributeName name = false) :
    simplifyNode entries = (do return (← simplifyEntries entries, .null)) := by
  induction entries with
  | nil => rfl
  | cons entry _ ih =>
    obtain ⟨⟨name, isName, notText, notAttribute⟩, others⟩ := forall_mem_cons.mp areChildren
    obtain ⟨_, _⟩ := entry
    obtain rfl : _ = Key.text name := isName
    simp [simplifyNode, simplifyEntries, notText, notAttribute, ih others]

theorem write_of_isUniform (compact : style.indent = none) (unsorted : style.sortKeys = false)
    (uniform : IsUniform value) :
    write style value = (do writeSimple style 0 (← simplify value)) := by
  cases value with
  | list => simp only [write, simplify, writeSimple, bind_assoc, pure_bind]
  | object origin entries =>
    obtain ⟨once, isNode⟩ := uniform
    have asRecord :
        simplify (.object origin entries) = (do return .record (← simplifyEntries entries)) := by
      cases origin with
      | data => rfl
      | xml =>
        obtain ⟨notEmpty, areChildren⟩ := isNode rfl
        rw [simplify, simplifyNode_of_children areChildren]
        cases entries with
        | nil => exact absurd rfl notEmpty
        | cons => simp [simplifyEntries]
    have sameEntries : entries.flatMap repetitions = entries :=
      (flatMap_congr once).trans (flatMap_singleton' entries)
    have isEnclosed (parts : List String) :
        write.brackets style "\x7b" "\x7d" parts = enclose style 0 "\x7b" "\x7d" parts := by
      simp [write.brackets, compact]
    have inPlace {α : Type} (entries : List (Key × α)) : arranged style entries = pure entries := by
      rw [arranged, unsorted]
      rfl
    simp only [write, asRecord, inPlace, sameEntries, isEnclosed, writeSimple, bind_assoc,
      pure_bind]
    cases entries <;> rfl
  | _ => rfl

/-- On one line, a value is written in a list as it is alone, between brackets. -/
theorem write_inside_list (compact : style.indent = none) (unsorted : style.sortKeys = false)
    (uniform : IsUniform value) :
    write style (.array [value]) = (do return "[" ++ (← write style value) ++ "]") := by
  rw [write_of_isUniform compact unsorted uniform]
  simp only [write, simplifyAll, writeItems, writeSimple_compact compact _ 1 0, bind_assoc,
    pure_bind, enclose, compact]
  rfl

/-- An element with two children of different names. -/
theorem write_inside_list_children : write ⟨none, true, false⟩
        (.array [.object .xml [(.text "a", .text "x"), (.text "b", .object .xml [])]]) =
      .ok "[\x7b\"a\":\"x\",\"b\":\"\"\x7d]" := by
  have uniform :
      IsUniform (.object .xml [(.text "a", .text "x"), (.text "b", .object .xml [])]) := by
    simp [IsUniform, repetitions, textEntry, isAttributeName]
  exact (write_inside_list rfl rfl uniform).trans (by cbv)

end Weave.Json
