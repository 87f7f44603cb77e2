import Weave.Proofs.Json.RoundTrip
import Weave.Proofs.Xml.RoundTrip
import Weave.Value.Collapse

namespace Weave

open List Json

/-!
# Two views of an element

The value of an element is looked at in two ways.  Written as JSON, it loses its attributes, and its
children hide its text.  Given out as it is, an element with text is its text, which hides
attributes and children alike.  The two views are the same just if no element of the tree has
attributes or children that one view shows and the other one does not.
-/

variable {attributes : List (String × String)} {text : String} {children : List Element}
  {entries simple : Entries} {groups : Groups}

namespace Xml

/-- Each element has nothing but children, or has no children, and text if it has attributes. -/
inductive Element.IsPlain : Element → Prop where
  | leaf {tag : String} {attributes : List (String × String)} {text : String}
      (told : attributes = [] ∨ Text.trimmed text ≠ "") :
      IsPlain (.mk tag attributes text [])
  | branch {tag : String} {text : String} {children : List Element} (some : children ≠ [])
      (silent : Text.trimmed text = "") (each : ∀ child ∈ children, child.IsPlain) :
      IsPlain (.mk tag [] text children)

theorem Element.isPlain_mk_iff {tag : String} : IsPlain (.mk tag attributes text children) ↔
      children = [] ∧ (attributes = [] ∨ Text.trimmed text ≠ "") ∨
        children ≠ [] ∧ attributes = [] ∧ Text.trimmed text = "" ∧
          ∀ child ∈ children, child.IsPlain := by
  constructor
  · rintro (told | ⟨some, silent, each⟩)
    · exact .inl ⟨rfl, told⟩
    · exact .inr ⟨some, rfl, silent, each⟩
  · rintro (⟨rfl, told⟩ | ⟨some, rfl, silent, each⟩)
    · exact .leaf told
    · exact .branch some silent each

/-! ## Views of parts -/

/-- The value has both views, and the one for JSON is a document that can be written. -/
structure IsViewed (value : Value) : Prop where
  written :
    ∃ simple,
      Json.simplify value = .ok simple ∧ Json.IsDocument simple ∧ ¬ Json.HoldsLongInteger simple
  collapsed : ∃ bare, value.unmarked = .ok bare

/-- The views of the value are the same. -/
def Agrees (value : Value) : Prop := Json.simplify value = value.unmarked

theorem isViewed_text (text : String) : IsViewed (.text text) :=
  ⟨⟨_, rfl, .text text, by rintro ⟨⟩⟩, ⟨_, rfl⟩⟩

theorem views_items (each : ∀ item ∈ items, IsViewed item) : ∃ simple bare,
      simplifyAll items = .ok simple ∧ Value.unmarkedAll items = .ok bare ∧
        (∀ item ∈ simple, Json.IsDocument item ∧ ¬ Json.HoldsLongInteger item) ∧
        (simple = bare ↔ ∀ item ∈ items, Agrees item) := by
  induction items with
  | nil => exact ⟨[], [], rfl, rfl, fun _ mem => absurd mem not_mem_nil, by simp⟩
  | cons item _ ih =>
    obtain ⟨simples, bares, isSimples, isBares, documents, same⟩ := ih (forall_mem_cons.mp each).2
    obtain ⟨⟨simple, isSimple, isDocument, short⟩, bare, isBare⟩ := each item mem_cons_self
    refine ⟨simple :: simples, bare :: bares, ?_, ?_, ?_, ?_⟩
    · rw [simplifyAll, isSimple, isSimples]
      rfl
    · rw [Value.unmarkedAll, isBare, isBares]
      rfl
    · exact forall_mem_cons.mpr ⟨⟨isDocument, short⟩, documents⟩
    · rw [cons.injEq, forall_mem_cons, same, Agrees, isSimple, isBare, Except.ok.injEq]

theorem views_entries (each : ∀ entry ∈ entries, IsViewed entry.2) : ∃ simple bare,
      simplifyEntries entries = .ok simple ∧ Value.unmarkedEntries entries = .ok bare ∧
        simple.map Prod.fst = entries.map Prod.fst ∧ bare.map Prod.fst = entries.map Prod.fst ∧
        (∀ entry ∈ simple, Json.IsDocument entry.2 ∧ ¬ Json.HoldsLongInteger entry.2) ∧
        (simple = bare ↔ ∀ entry ∈ entries, Agrees entry.2) := by
  induction entries with
  | nil =>
    exact ⟨[], [], rfl, rfl, rfl, rfl, fun _ mem => absurd mem not_mem_nil, by simp⟩
  | cons entry _ ih =>
    obtain ⟨key, value⟩ := entry
    obtain ⟨simples, bares, isSimples, isBares, simpleKeys, bareKeys, documents, same⟩ :=
      ih (forall_mem_cons.mp each).2
    obtain ⟨⟨simple, isSimple, isDocument, short⟩, bare, isBare⟩ := each (key, value) mem_cons_self
    refine ⟨(key, simple) :: simples, (key, bare) :: bares, ?_, ?_, ?_, ?_, ?_, ?_⟩
    · rw [simplifyEntries, isSimple, isSimples]
      rfl
    · rw [Value.unmarkedEntries, isBare, isBares]
      rfl
    · rw [map_cons, map_cons, simpleKeys]
    · rw [map_cons, map_cons, bareKeys]
    · exact forall_mem_cons.mpr ⟨⟨isDocument, short⟩, documents⟩
    · rw [cons.injEq, forall_mem_cons, same, Agrees, isSimple, isBare,
        Except.ok.injEq, Prod.mk.injEq, and_iff_right rfl]

/-- A group has both views if its values have, and they are the same if those of its values are. -/
theorem views_group (each : ∀ value ∈ group.2, IsViewed value) : IsViewed (groupEntry group).2 ∧
      (Agrees (groupEntry group).2 ↔ ∀ value ∈ group.2, Agrees value) := by
  have asList :
      IsViewed (.list .xml group.2) ∧
        (Agrees (.list .xml group.2) ↔ ∀ value ∈ group.2, Agrees value) := by
    obtain ⟨simple, bare, isSimple, isBare, documents, same⟩ := views_items each
    have simplified : simplify (.list .xml group.2) = .ok (.array simple) := by
      rw [simplify, isSimple]
      rfl
    have collapsed : (Value.list .xml group.2).unmarked = .ok (.array bare) := by
      rw [Value.unmarked, isBare]
      rfl
    refine ⟨⟨⟨_, simplified, .list fun item mem => (documents item mem).1, ?_⟩, _, collapsed⟩,
      ?_⟩
    · rintro (_ | ⟨mem, long⟩)
      exact (documents _ mem).2 long
    · rw [← same, Agrees, simplified, collapsed, Except.ok.injEq, Value.list.injEq,
        and_iff_right rfl]
  obtain ⟨tag, values⟩ := group
  rcases values with _ | ⟨first, _ | ⟨second, others⟩⟩
  · exact asList
  · exact ⟨each first mem_cons_self, by simp [groupEntry]⟩
  · exact asList

/-! ## Views of an element -/

/-- The key names a child. -/
def IsChildKey (key : Key) : Prop := ∃ tag, key = .text tag ∧ IsChildTag tag

theorem simplifyNode_attributes (attributes : List (String × String)) (rest : Entries) :
    simplifyNode (attributes.map Element.attributeEntry ++ rest) = simplifyNode rest := by
  induction attributes with
  | nil => rfl
  | cons named _ ih =>
    have isAttribute := isAttributeName_attributeEntry named.1
    have notText : ("@" ++ named.1 == textEntry) = false := by
      simp [textEntry, String.ext_iff]
    rw [map_cons, cons_append, Element.attributeEntry, simplifyNode]
    simp only [notText, isAttribute, Bool.false_eq_true, if_false, if_true, ih]

theorem simplifyNode_children (areChildren : ∀ entry ∈ entries, IsChildKey entry.1)
    (isSimple : simplifyEntries entries = .ok simple) (text : String) :
    simplifyNode (entries ++ textEntries text) =
      .ok (simple, if text.isEmpty then .null else .text text) := by
  induction entries generalizing simple with
  | nil =>
    cases isSimple
    unfold textEntries
    split
    · rfl
    · rfl
  | cons entry rest ih =>
    obtain ⟨key, value⟩ := entry
    obtain ⟨⟨tag, isKey, notAttribute, notText⟩, others⟩ := forall_mem_cons.mp areChildren
    obtain rfl : key = .text tag := isKey
    rw [simplifyEntries] at isSimple
    cases isFirst : simplify value with
    | error =>
      rw [isFirst] at isSimple
      cases isSimple
    | ok =>
      cases isRest : simplifyEntries rest with
      | error =>
        rw [isFirst, isRest] at isSimple
        cases isSimple
      | ok =>
        rw [isFirst, isRest] at isSimple
        cases isSimple
        have further := ih others isRest
        rw [cons_append, simplifyNode]
        simp only [beq_eq_false_iff_ne.mpr notText, notAttribute, Bool.false_eq_true, if_false,
          isFirst, further]
        rfl

theorem unmarkedEntries_append (front back : Entries) : Value.unmarkedEntries (front ++ back) =
      (do
        let first ← Value.unmarkedEntries front
        return first ++ (← Value.unmarkedEntries back)) := by
  induction front with
  | nil =>
    cases isBack : Value.unmarkedEntries back <;> simp [Value.unmarkedEntries, isBack] <;> rfl
  | cons entry rest ih =>
    obtain ⟨key, value⟩ := entry
    rw [cons_append, Value.unmarkedEntries, Value.unmarkedEntries, ih]
    cases value.unmarked with
    | error => rfl
    | ok =>
      cases Value.unmarkedEntries rest with
      | error => rfl
      | ok =>
        cases Value.unmarkedEntries back with
        | error => rfl
        | ok => rfl

theorem unmarkedEntries_attributes (attributes : List (String × String)) :
    Value.unmarkedEntries (attributes.map Element.attributeEntry) =
      .ok (attributes.map Element.attributeEntry) := by
  induction attributes with
  | nil => rfl
  | cons _ _ ih =>
    rw [map_cons, Value.unmarkedEntries, ih]
    rfl

theorem unmarkedEntries_text (text : String) :
    Value.unmarkedEntries (textEntries text) = .ok (textEntries text) := by
  unfold textEntries
  split
  · rfl
  · rfl

theorem textOf?_assembled {front : Entries} (noText : Key.text textEntry ∉ front.map Prod.fst)
    (text : String) :
    Value.textOf? (front ++ textEntries text) =
      if text.isEmpty then none else some (.text text) := by
  have found :
      Entries.find? (front ++ textEntries text) (.text textEntry) =
        if text.isEmpty then none else some (.text text) := by
    induction front with
    | nil =>
      unfold textEntries
      split
      · rfl
      · simp [Entries.find?]
    | cons _ _ ih =>
      simp only [map_cons, mem_cons, not_or] at noText
      rw [← ih noText.2, Entries.find?, cons_append, lookup_cons_eq_ite,
        if_neg noText.1, Entries.find?]
  unfold Value.textOf?
  split <;> simp_all

theorem views_assembled (some : (groups.isEmpty && attributes.isEmpty) = false)
    (tags : ∀ group ∈ groups, IsChildTag group.1) {bare : Entries}
    (isSimple : simplifyEntries (groups.map groupEntry) = .ok simple)
    (isBare : Value.unmarkedEntries (groups.map groupEntry) = .ok bare)
    (simpleKeys : simple.map Prod.fst = (groups.map groupEntry).map Prod.fst)
    (bareKeys : bare.map Prod.fst = (groups.map groupEntry).map Prod.fst) :
    simplify (assembled attributes groups text) =
        .ok (if groups.isEmpty then .text text else .record simple) ∧
      (assembled attributes groups text).unmarked =
        .ok (if text.isEmpty then .record (attributes.map Element.attributeEntry ++ bare)
          else .text text) := by
  have areChildren : ∀ entry ∈ groups.map groupEntry, IsChildKey entry.1 := by
    intro entry mem
    obtain ⟨group, inGroups, rfl⟩ := mem_map.mp mem
    exact ⟨group.1, fst_groupEntry group, tags group inGroups⟩
  have noText :
      Key.text textEntry ∉ (attributes.map Element.attributeEntry ++ bare).map Prod.fst := by
    rw [map_append, mem_append, bareKeys]
    rintro (inAttributes | inGroups)
    · obtain ⟨entry, mem, isKey⟩ := mem_map.mp inAttributes
      obtain ⟨named, _, rfl⟩ := mem_map.mp mem
      simp [Element.attributeEntry, textEntry, String.ext_iff] at isKey
    · obtain ⟨entry, mem, isKey⟩ := mem_map.mp inGroups
      obtain ⟨tag, isTag, _, notText⟩ := areChildren entry mem
      exact notText (Key.text.inj (isTag.symm.trans isKey))
  have sameEmpty : simple.isEmpty = groups.isEmpty := by
    have lengths := congrArg length simpleKeys
    simp only [length_map] at lengths
    rw [Bool.eq_iff_iff, isEmpty_iff_length_eq_zero, isEmpty_iff_length_eq_zero, lengths]
  rw [assembled, some, if_neg Bool.false_ne_true]
  constructor
  · rw [simplify, append_assoc, simplifyNode_attributes,
      simplifyNode_children areChildren isSimple]
    simp only [bind, Except.bind, sameEmpty]
    by_cases noGroups : groups.isEmpty
    · by_cases isEmpty : text.isEmpty
      · simp [noGroups, String.isEmpty_iff.mp isEmpty]
        rfl
      · simp [noGroups, isEmpty]
        rfl
    · simp [noGroups]
      rfl
  · rw [Value.unmarked, unmarkedEntries_append, unmarkedEntries_append, unmarkedEntries_attributes,
      isBare, unmarkedEntries_text]
    simp only [bind, Except.bind, pure, Except.pure, textOf?_assembled noText]
    by_cases isEmpty : text.isEmpty
    · simp [isEmpty, textEntries]
    · simp [isEmpty]

/-- An assembled value has both views.  They are the same if there are no children, and text if
there are attributes, or if there is nothing but children whose views are the same. -/
theorem views_of_groups (attributes : List (String × String)) (text : String)
    (distinct : (groups.map Prod.fst).Nodup) (tags : ∀ group ∈ groups, IsChildTag group.1)
    (viewed : ∀ group ∈ groups, ∀ value ∈ group.2, IsViewed value) :
    IsViewed (assembled attributes groups text) ∧
      (Agrees (assembled attributes groups text) ↔
        groups = [] ∧ (attributes = [] ∨ text ≠ "") ∨
          groups ≠ [] ∧ attributes = [] ∧ text = "" ∧
            ∀ group ∈ groups, ∀ value ∈ group.2, Agrees value) := by
  by_cases isLeaf : (groups.isEmpty && attributes.isEmpty)
  · obtain ⟨noGroups, noAttributes⟩ := Bool.and_eq_true_iff.mp isLeaf
    rw [assembled, isLeaf]
    exact ⟨isViewed_text text, iff_of_true rfl
      (.inl ⟨isEmpty_iff.mp noGroups, .inl (isEmpty_iff.mp noAttributes)⟩)⟩
  · have viewedEntries : ∀ entry ∈ groups.map groupEntry, IsViewed entry.2 := by
      intro entry mem
      obtain ⟨group, inGroups, rfl⟩ := mem_map.mp mem
      exact (views_group (viewed group inGroups)).1
    have agreeEntries :
        (∀ entry ∈ groups.map groupEntry, Agrees entry.2) ↔
          ∀ group ∈ groups, ∀ value ∈ group.2, Agrees value := by
      rw [forall_mem_map]
      exact forall₂_congr fun group inGroups => (views_group (viewed group inGroups)).2
    obtain ⟨simple, bare, isSimple, isBare, simpleKeys, bareKeys, documents, same⟩ :=
      views_entries viewedEntries
    obtain ⟨simplified, collapsed⟩ :=
      views_assembled (Bool.eq_false_iff.mpr isLeaf) tags isSimple isBare simpleKeys bareKeys
    have keys : simple.map Prod.fst = (groups.map Prod.fst).map Key.text := by
      rw [simpleKeys, map_map, map_map]
      exact map_congr_left fun group _ => fst_groupEntry group
    have isDocument : Json.IsDocument (.record simple) := by
      refine .object ?_ ?_ fun entry mem => (documents entry mem).1
      · rw [keys]
        simp
      · rw [keys]
        exact distinct.map fun _ _ => Key.text.inj
    have short : ¬ Json.HoldsLongInteger (.record simple) := by
      rintro (_ | _ | ⟨mem, long⟩)
      exact (documents _ mem).2 long
    refine ⟨⟨⟨_, simplified, ?_⟩, _, collapsed⟩, ?_⟩
    · split
      · exact ⟨.text text, by rintro ⟨⟩⟩
      · exact ⟨isDocument, short⟩
    · rw [Agrees, simplified, collapsed, ← agreeEntries, ← same]
      by_cases noText : text = ""
      · by_cases noGroups : groups = []
        · have some : attributes ≠ [] := by
            rintro rfl
            exact isLeaf (by rw [noGroups]; rfl)
          simp [noGroups, noText, some]
        · have sameLength : simple.length = bare.length := by
            rw [← length_map Prod.fst, simpleKeys, ← bareKeys, length_map]
          have apart :
              simple = attributes.map Element.attributeEntry ++ bare ↔
                attributes = [] ∧ simple = bare := by
            constructor
            · intro joined
              have lengths := congrArg length joined
              rw [length_append, length_map] at lengths
              obtain rfl : attributes = [] := length_eq_zero_iff.mp (by omega)
              exact ⟨rfl, joined⟩
            · rintro ⟨rfl, joined⟩
              exact joined
          simp [noGroups, noText, apart, Value.record]
      · have isText : text.isEmpty = false := by
          simpa [String.isEmpty_iff] using noText
        by_cases noGroups : groups = []
        · simp [noGroups, isText, noText]
        · simp [noGroups, isText, noText, Value.record]

/-- A value is among the gathered ones if and only if it is the value of a child. -/
theorem forall_gathered_iff {holds : Value → Prop} :
    (∀ group ∈ Core.gather (Element.childPairs children), ∀ value ∈ group.2, holds value) ↔
      ∀ child ∈ children, holds child.toValue := by
  constructor
  · intro each child mem
    have inPairs :
        (child.tag, child.toValue) ∈ Groups.pairs (Core.gather (Element.childPairs children)) :=
      (Groups.mem_pairs_gather _ _).mpr (mem_map.mpr ⟨child, mem, rfl⟩)
    obtain ⟨group, inGroups, inGroup⟩ := mem_flatMap.mp inPairs
    obtain ⟨value, inValues, same⟩ := mem_map.mp inGroup
    rw [← (Prod.mk.inj same).2]
    exact each group inGroups value inValues
  · intro each group inGroups value inValues
    have inPairs : (group.1, value) ∈ Groups.pairs (Core.gather (Element.childPairs children)) :=
      mem_flatMap.mpr ⟨group, inGroups, mem_map_of_mem inValues⟩
    obtain ⟨child, mem, same⟩ := mem_pairs_gathered inPairs
    rw [← (Prod.mk.inj same).2]
    exact each child mem

/-- Every element has both views, and they are the same if and only if it is plain. -/
theorem views_element {element : Element} (ordinary : element.IsOrdinary) :
    IsViewed element.toValue ∧ (Agrees element.toValue ↔ element.IsPlain) := by
  induction ordinary with
  | @mk tag attributes text children unique tags _ ih =>
    have isEmpty : Core.gather (Element.childPairs children) = [] ↔ children = [] := by
      rw [← List.isEmpty_iff, isEmpty_gathered, List.isEmpty_iff]
    have groupTags :
        ∀ group ∈ Core.gather (Element.childPairs children), IsChildTag group.1 := by
      intro group mem
      obtain ⟨child, childMember, same⟩ := exists_child_of_group mem
      exact same ▸ tags child childMember
    have viewed := forall_gathered_iff.mpr fun child mem => (ih child mem).1
    have agree := forall_gathered_iff.trans (forall₂_congr fun child mem => (ih child mem).2)
    have views :=
      views_of_groups attributes (Text.trimmed text)
        (Groups.isProper_gather (Element.childPairs children)).distinct groupTags viewed
    rw [Element.toValue_eq_assembled tag text unique tags, Element.isPlain_mk_iff]
    simpa only [ne_eq, isEmpty, agree] using views

end Xml

/-! ## Whole documents -/

/-- An object of one element is written like the object of the element's view. -/
theorem Json.write_element {style : Style} (unsorted : style.sortKeys = false) (tag : String)
    {value simple : Value} (isNode : Xml.IsNode value) (isSimple : simplify value = .ok simple)
    (isDocument : IsDocument simple) :
    write style (.record [(.text tag, value)]) = write style (.record [(.text tag, simple)]) := by
  have once : repetitions (.text tag, value) = [(.text tag, value)] := by
    cases value with
    | list => exact isNode.elim
    | _ => rfl
  have onceSimple : repetitions (.text tag, simple) = [(.text tag, simple)] := by
    cases isDocument <;> rfl
  have arrangedAs :
      ∀ value : Value, arranged style [(Key.text tag, value)] = .ok [(.text tag, value)] := by
    simp [arranged, unsorted]
  simp only [write, arrangedAs, isEmpty_cons, Bool.false_eq_true, if_false, bind,
    Except.bind, flatMap_cons, flatMap_nil, append_nil, once, onceSimple,
    simplifyEntries, isSimple, simplify_of_isWritable (isDocument.isWritable style)]

namespace Format

/--
An element that was read is written as JSON with every indentation, and is given out with its marks
removed.  What is read from the JSON text is what is given out if and only if each element in the
tree has nothing but children, or has no children, and text if it has attributes.
-/
theorem readNamed_json_eq_unmarked_iff {element : Xml.Element} (ordinary : element.IsOrdinary)
    (isRoot : Xml.IsChildTag element.tag) (writing reading : Options) {blanks : Option Nat}
    (indent : indentOf writing = .ok blanks) (unsorted : writing.flag "sort_keys" false = false) :
    ∃ written bare,
      writeNamed "json" writing (.record [(.text element.tag, element.toValue)]) =
          .ok (.text written) ∧
        (Value.record [(.text element.tag, element.toValue)]).unmarked = .ok bare ∧
        (readNamed "json" reading (.text written) = .ok bare ↔ element.IsPlain) := by
  obtain ⟨⟨⟨simple, isSimple, isDocument, short⟩, bare, isBare⟩, agrees⟩ :=
    Xml.views_element ordinary
  have wholeDocument : Json.IsDocument (.record [(.text element.tag, simple)]) := by
    refine .object (by simp) (by simp) ?_
    intro entry member
    rw [List.mem_singleton.mp member]
    exact isDocument
  have wholeShort : ¬ Json.HoldsLongInteger (.record [(.text element.tag, simple)]) := by
    rintro (_ | _ | ⟨member, long⟩)
    rw [List.mem_singleton.mp member] at long
    exact short long
  have settled :=
    Json.settled_write
      (wholeDocument.isWritable
        ⟨blanks, writing.flag "ensure_ascii" true, writing.flag "sort_keys" false⟩)
  rw [← Json.write_element unsorted element.tag (Xml.isNode_toValue element) isSimple isDocument]
    at settled
  cases isWritten :
      Json.write ⟨blanks, writing.flag "ensure_ascii" true, writing.flag "sort_keys" false⟩
        (.record [(.text element.tag, element.toValue)]) with
  | error =>
    rw [isWritten] at settled
    exact absurd settled.1 wholeShort
  | ok written =>
    rw [isWritten] at settled
    have readBack := readNamed_json_of_reads reading settled.2
    rw [Json.Style.readBack_of_isDocument _ wholeDocument] at readBack
    have collapsed :
        (Value.record [(.text element.tag, element.toValue)]).unmarked =
          .ok (.record [(.text element.tag, bare)]) := by
      have notText : Key.text textEntry ≠ .text element.tag :=
        fun same => isRoot.2 (Key.text.inj same).symm
      simp only [Value.record, Value.unmarked, Value.unmarkedEntries, isBare, bind, Except.bind,
        pure, Except.pure, Value.textOf?, Entries.find?, lookup_cons_eq_ite, if_neg notText,
        List.lookup_nil]
    refine ⟨written, _, writeNamed_json_of_write indent isWritten, collapsed, ?_⟩
    rw [readBack, ← agrees, Xml.Agrees, isSimple, isBare]
    simp [Json.Style.order, unsorted, Value.record]

/-- A list of two items, of which one has text and an attribute, looks the same in both views. -/
theorem readNamed_json_eq_unmarked_order : ∃ written,
      writeNamed "json" []
          (.record [(.text "order",
              .object .xml
                [(.text "item",
                  .list .xml
                    [.object .xml [(.text "@size", .text "4"), (.text "#text", .text "pen")],
                      .text "ink"])])]) =
        .ok (.text written) ∧
      readNamed "json" [] (.text written) =
        .ok (.record
          [(.text "order", .record [(.text "item", .array [.text "pen", .text "ink"])])]) := by
  have ordinary :
      Xml.Element.IsOrdinary
        (.mk "order" [] "\n" [.mk "item" [("size", "4")] " pen " [], .mk "item" [] "ink" []]) := by
    refine .mk (by decide) ?_ ?_
    · simp only [List.mem_cons, List.not_mem_nil, or_false, forall_eq_or_imp, forall_eq]
      exact ⟨⟨by decide, by decide⟩, by decide, by decide⟩
    · simp only [List.mem_cons, List.not_mem_nil, or_false, forall_eq_or_imp, forall_eq]
      exact ⟨.mk (by decide) (by simp) (by simp), .mk (by decide) (by simp) (by simp)⟩
  have plain :
      Xml.Element.IsPlain
        (.mk "order" [] "\n" [.mk "item" [("size", "4")] " pen " [], .mk "item" [] "ink" []]) := by
    refine .branch (by simp) (by cbv) ?_
    simp only [List.mem_cons, List.not_mem_nil, or_false, forall_eq_or_imp, forall_eq]
    exact ⟨.leaf (.inr (by cbv)), .leaf (.inl rfl)⟩
  have value :
      (Xml.Element.mk "order" [] "\n"
          [.mk "item" [("size", "4")] " pen " [], .mk "item" [] "ink" []]).toValue =
        .object .xml
          [(.text "item",
            .list .xml
              [.object .xml [(.text "@size", .text "4"), (.text "#text", .text "pen")],
                .text "ink"])] := by
    have pen : Text.trimmed " pen " = "pen" := by decide
    have ink : Text.trimmed "ink" = "ink" := by decide
    have blank : Text.trimmed "\n" = "" := by decide
    simp [Xml.Element.toValue, Xml.Element.childEntries, Xml.Element.addChild, Entries.ofList,
      Entries.insertAll, Entries.insert, setPair, Entries.find?, Xml.Element.attributeEntry,
      Xml.Element.tag, textEntry, pen, ink, blank]
  obtain ⟨written, bare, isWritten, isBare, readBack⟩ :=
    readNamed_json_eq_unmarked_iff ordinary ⟨by decide, by decide⟩ [] [] rfl rfl
  rw [value] at isWritten isBare
  cases isBare
  exact ⟨written, isWritten, readBack.mpr plain⟩

end Format

end Weave
