import Weave.Proofs.Core.Groups
import Weave.Xml.Element

namespace Weave

open List

/-!
# Elements made from the values of elements

The value of an element gathers its children by tag.  The element made from that value has its
children in another order, those of one tag next to each other, and it has the same value.
-/

variable {attributes : List (String × String)} {tag : String} {children : List Element}
  {groups : Groups} {built : String × Value → Element}

namespace Text

theorem trimmed_trimmed (text : String) : trimmed (trimmed text) = trimmed text := by
  have front :
      ((text.toList.dropWhile isBlank).rdropWhile isBlank).dropWhile isBlank =
        (text.toList.dropWhile isBlank).rdropWhile isBlank := by
    rw [dropWhile_eq_self_iff]
    intro hasFirst
    have isFirst :=
      (List.rdropWhile_prefix isBlank (text.toList.dropWhile isBlank)).getElem hasFirst
    rw [isFirst]
    exact dropWhile_get_zero_not isBlank text.toList _
  have shape :
      ∀ chars : List Char, trim chars = (chars.dropWhile isBlank).rdropWhile isBlank :=
    fun _ => rfl
  simp only [trimmed, String.toList_ofList]
  rw [shape text.toList, shape, front, rdropWhile_idempotent]

end Text

namespace Xml

open Weave.Core (addTo gather gather_concat gather_cons gather_spec)

/-! ## Children gathered by tag -/

/-- The values of children by tag, the tags in the order of their first occurrence. -/
abbrev Groups := List (String × List Value)

namespace Groups

/-- The tag and the value of each child, group by group. -/
def pairs (groups : Groups) : List (String × Value) :=
  groups.flatMap fun group => group.2.map fun value => (group.1, value)

/-- Two groups never share a tag, and none is empty. -/
structure IsProper (groups : Groups) : Prop where
  distinct : (groups.map Prod.fst).Nodup
  full : ∀ group ∈ groups, group.2 ≠ []

theorem isProper_gather (pairs : List (String × Value)) : IsProper (gather pairs) :=
  ⟨(gather_spec pairs).1, (gather_spec pairs).2.1⟩

theorem mem_pairs_gather (additions : List (String × Value)) (pair : String × Value) :
    pair ∈ pairs (gather additions) ↔ pair ∈ additions := by
  obtain ⟨tag, value⟩ := pair
  rw [← (gather_spec additions).2.2 tag value]
  simp [pairs]

theorem gather_pairs (proper : groups.IsProper) : gather groups.pairs = groups := by
  obtain ⟨distinct, full⟩ := proper
  induction groups with
  | nil => rfl
  | cons group rest ih =>
    obtain ⟨tag, values⟩ := group
    rw [map_cons, nodup_cons] at distinct
    rw [forall_mem_cons] at full
    obtain ⟨first, others, rfl⟩ := exists_cons_of_ne_nil full.1
    have differs : ∀ pair ∈ pairs rest, pair.1 ≠ tag := by
      rintro pair mem rfl
      obtain ⟨group, isGroup, inGroup⟩ := mem_flatMap.mp mem
      obtain ⟨_, _, rfl⟩ := mem_map.mp inGroup
      exact distinct.1 (mem_map.mpr ⟨group, isGroup, rfl⟩)
    have shape :
        pairs ((tag, first :: others) :: rest) =
          (tag, first) :: (others.map (fun value => (tag, value)) ++ pairs rest) := by
      simp [pairs]
    have noneSame : (pairs rest).filter (·.1 == tag) = [] := by simpa using differs
    have allDiffer : (pairs rest).filter (·.1 != tag) = pairs rest := by simpa using differs
    rw [shape, gather_cons, filter_append, filter_append, noneSame, allDiffer]
    simp [filter_map, Function.comp_def, ih distinct.2 full.2]

end Groups

/-! ## The value of an element -/

/-- The entry of a group; one value stands for itself. -/
def groupEntry : String × List Value → Key × Value
  | (tag, [value]) => (.text tag, value)
  | (tag, values) => (.text tag, .list .xml values)

theorem fst_groupEntry (group : String × List Value) : (groupEntry group).1 = .text group.1 := by
  obtain ⟨tag, values⟩ := group
  rcases values with _ | ⟨first, _ | ⟨second, rest⟩⟩ <;> rfl

/-- The value is no list, as the value of an element never is. -/
def IsNode : Value → Prop
  | .list .. => False
  | _ => True

theorem isNode_toValue (element : Element) : IsNode element.toValue := by
  obtain ⟨tag, attributes, text, children⟩ := element
  rw [Element.toValue]
  split
  · trivial
  · split <;> trivial

namespace Element

/-- An entry under another key is passed over. -/
theorem addChild_cons_of_ne (differs : entry.1 ≠ .text tag) (rest : Entries) (value : Value) :
    addChild (entry :: rest) tag value = entry :: addChild rest tag value := by
  obtain ⟨key, old⟩ := entry
  have wanted : Key.text tag ≠ key := fun same => differs same.symm
  have found : Entries.find? ((key, old) :: rest) (.text tag) = Entries.find? rest (.text tag) := by
    rw [Entries.find?, lookup_cons_eq_ite, if_neg wanted, Entries.find?]
  have inserted :
      ∀ new, Entries.insert ((key, old) :: rest) (.text tag) new =
        (key, old) :: Entries.insert rest (.text tag) new := by
    intro new
    rw [Entries.insert, setPair, if_neg differs, Entries.insert]
  unfold addChild
  rw [found]
  split <;> rw [inserted]

theorem addChild_cons_of_eq (tag : String) (old : Value) (rest : Entries) (value : Value) :
    addChild ((.text tag, old) :: rest) tag value =
      (.text tag,
        match old with
        | .list .xml items => .list .xml (items ++ [value])
        | first => .list .xml [first, value]) :: rest := by
  have found : Entries.find? ((.text tag, old) :: rest) (.text tag) = some old := by
    rw [Entries.find?, lookup_cons_eq_ite, if_pos rfl]
  have inserted :
      ∀ new, Entries.insert ((.text tag, old) :: rest) (.text tag) new =
        (.text tag, new) :: rest := by
    intro new
    rw [Entries.insert, setPair, if_pos rfl]
  unfold addChild
  rw [found]
  split <;> simp_all

theorem addChild_groups (full : ∀ group ∈ groups, group.2 ≠ [])
    (nodes : ∀ pair ∈ groups.pairs, IsNode pair.2) (tag : String) (value : Value) :
    addChild (groups.map groupEntry) tag value = (addTo tag value groups).map groupEntry := by
  induction groups with
  | nil => rfl
  | cons group _ ih =>
    obtain ⟨present, values⟩ := group
    have restAdded :=
      ih
        (forall_mem_cons.mp full).2 (fun pair mem => nodes pair (by
          simp only [Groups.pairs, flatMap_cons, mem_append] at mem ⊢
          exact .inr mem))
    simp only [map_cons, addTo]
    by_cases same : present = tag
    · subst same
      rw [if_pos rfl]
      rcases values with _ | ⟨first, _ | ⟨second, others⟩⟩
      · exact absurd rfl (full _ mem_cons_self)
      · have node := nodes (present, first) (by simp [Groups.pairs])
        rw [groupEntry, addChild_cons_of_eq]
        cases first with
        | list => exact node.elim
        | _ => rfl
      · simp only [groupEntry, addChild_cons_of_eq]
        rfl
    · have differs : (groupEntry (present, values)).1 ≠ .text tag := by
        rw [fst_groupEntry]
        simpa using same
      rw [if_neg same, addChild_cons_of_ne differs, restAdded, map_cons]

/-- Entries under other keys are passed over. -/
theorem addChild_append {front : Entries} (isNew : Key.text tag ∉ front.map Prod.fst)
    (back : Entries) (value : Value) :
    addChild (front ++ back) tag value = front ++ addChild back tag value := by
  induction front with
  | nil => rfl
  | cons entry _ ih =>
    simp only [map_cons, mem_cons, not_or] at isNew
    have differs : entry.1 ≠ .text tag := fun same => isNew.1 same.symm
    rw [cons_append, addChild_cons_of_ne differs, ih isNew.2, cons_append]

/-- The tag and the value of each child. -/
def childPairs (children : List Element) : List (String × Value) :=
  children.map fun child => (child.tag, child.toValue)

theorem childEntries_eq {front : Entries} (done : List Element)
    (isNew : ∀ child ∈ children, Key.text child.tag ∉ front.map Prod.fst) :
    childEntries (front ++ (gather (childPairs done)).map groupEntry) children =
      front ++ (gather (childPairs (done ++ children))).map groupEntry := by
  induction children generalizing done with
  | nil => rw [append_nil, childEntries]
  | cons child _ ih =>
    have nodes : ∀ pair ∈ Groups.pairs (gather (childPairs done)), IsNode pair.2 := by
      intro pair mem
      obtain ⟨child, _, rfl⟩ := mem_map.mp ((Groups.mem_pairs_gather _ _).mp mem)
      exact isNode_toValue child
    have added := gather_concat (childPairs done) (child.tag, child.toValue)
    have shape : childPairs (done ++ [child]) = childPairs done ++ [(child.tag, child.toValue)] :=
      map_append
    rw [childEntries, addChild_append (isNew child mem_cons_self),
      addChild_groups (Groups.isProper_gather _).full nodes, ← added, ← shape,
      ih _ (forall_mem_cons.mp isNew).2, append_assoc, singleton_append]

end Element

/-- The groups of children hold the children and nothing else. -/
theorem mem_pairs_gathered (mem : pair ∈ Groups.pairs (gather (Element.childPairs children))) :
    ∃ child ∈ children, (child.tag, child.toValue) = pair :=
  mem_map.mp ((Groups.mem_pairs_gather _ _).mp mem)

theorem exists_child_of_group (mem : group ∈ gather (Element.childPairs children)) :
    ∃ child ∈ children, child.tag = group.1 := by
  have full := (Groups.isProper_gather (Element.childPairs children)).full group mem
  obtain ⟨first, isFirst⟩ := exists_mem_of_ne_nil _ full
  obtain ⟨child, isChild, same⟩ :=
    mem_pairs_gathered (mem_flatMap.mpr ⟨group, mem, mem_map_of_mem isFirst⟩)
  exact ⟨child, isChild, (Prod.mk.inj same).1⟩

theorem isEmpty_gathered (children : List Element) :
    (gather (Element.childPairs children)).isEmpty = children.isEmpty := by
  cases children with
  | nil => rfl
  | cons =>
    rw [Element.childPairs, map_cons, gather_cons]
    rfl

/-- The entry of a text, if there is one. -/
def textEntries (text : String) : Entries :=
  if text.isEmpty then [] else [(.text textEntry, .text text)]

/-- The value made of attributes, gathered children and a text. -/
def assembled (attributes : List (String × String)) (groups : Groups) (text : String) : Value :=
  if groups.isEmpty && attributes.isEmpty then .text text
  else
    .object .xml
      (attributes.map Element.attributeEntry ++ groups.map groupEntry ++ textEntries text)

/-- The tag names a child: neither an attribute nor the text. -/
def IsChildTag (tag : String) : Prop := isAttributeName tag = false ∧ tag ≠ textEntry

/-- Every attribute has its own name and every child a tag that names a child, at all depths. -/
inductive Element.IsOrdinary : Element → Prop where
  | mk {tag : String} {attributes : List (String × String)}
      {text : String} {children : List Element} (unique : (attributes.map Prod.fst).Nodup)
      (tags : ∀ child ∈ children, IsChildTag child.tag)
      (each : ∀ child ∈ children, child.IsOrdinary) :
      Element.IsOrdinary (.mk tag attributes text children)

theorem isAttributeName_attributeEntry (name : String) : isAttributeName ("@" ++ name) := by
  simp [isAttributeName]

theorem nodup_attributeEntry (unique : (attributes.map Prod.fst).Nodup) :
    ((attributes.map Element.attributeEntry).map Prod.fst).Nodup := by
  rw [map_map]
  have shape :
      (Prod.fst ∘ Element.attributeEntry) =
        (fun name => Key.text ("@" ++ name)) ∘ (Prod.fst : String × String → String) := by
    rfl
  rw [shape, ← map_map]
  apply Nodup.map _ unique
  intro left right same
  simpa using same

theorem not_mem_attributeEntry (isChild : IsChildTag tag) (attributes : List (String × String)) :
    Key.text tag ∉ (attributes.map Element.attributeEntry).map Prod.fst := by
  intro mem
  simp only [map_map, mem_map, Function.comp_apply, Element.attributeEntry, Key.text.injEq] at mem
  obtain ⟨named, _, rfl⟩ := mem
  have isAttribute := isAttributeName_attributeEntry named.1
  rw [isChild.1] at isAttribute
  cases isAttribute

/-- The value of an element is assembled from its attributes, its gathered children and its text. -/
theorem Element.toValue_eq_assembled (tag : String) (text : String)
    (unique : (attributes.map Prod.fst).Nodup) (tags : ∀ child ∈ children, IsChildTag child.tag) :
    (Element.mk tag attributes text children).toValue =
      assembled attributes (gather (childPairs children)) (Text.trimmed text) := by
  have entries :
      childEntries (Entries.ofList (attributes.map attributeEntry)) children =
        attributes.map attributeEntry ++
          (gather (childPairs children)).map groupEntry := by
    have gathered :=
      childEntries_eq [] fun child mem => not_mem_attributeEntry (tags child mem) attributes
    rw [Entries.ofList_of_nodup (nodup_attributeEntry unique)]
    rwa [show gather (childPairs []) = [] from rfl, map_nil, append_nil] at gathered
  have noText :
      Key.text textEntry ∉
        (attributes.map attributeEntry ++
          (gather (childPairs children)).map groupEntry).map Prod.fst := by
    rw [map_append, mem_append]
    rintro (inAttributes | inGroups)
    · simp only [map_map, mem_map, Function.comp_apply, attributeEntry,
        Key.text.injEq] at inAttributes
      obtain ⟨named, _, same⟩ := inAttributes
      have isAttribute := isAttributeName_attributeEntry named.1
      rw [same] at isAttribute
      revert isAttribute
      decide
    · simp only [map_map, mem_map, Function.comp_apply, fst_groupEntry, Key.text.injEq] at inGroups
      obtain ⟨group, mem, same⟩ := inGroups
      obtain ⟨child, childMember, childTag⟩ := exists_child_of_group mem
      exact (tags child childMember).2 (childTag.trans same)
  rw [toValue]
  simp only [entries, assembled, isEmpty_gathered]
  split
  · rfl
  · unfold textEntries
    split
    · rw [append_nil]
    · rw [Entries.insert, setPair_of_not_mem noText]

/-! ## The element made from a value -/

theorem Element.ofEntries_attributes (before : List (String × String))
    (unique : ((before ++ attributes).map Prod.fst).Nodup) (tag text : String)
    (children : List Element) (rest : Entries) :
    ofEntries (.mk tag before text children) (attributes.map attributeEntry ++ rest) =
      ofEntries (.mk tag (before ++ attributes) text children) rest := by
  induction attributes generalizing before with
  | nil => simp
  | cons added others ih =>
    obtain ⟨name, value⟩ := added
    have isNew : name ∉ before.map Prod.fst := by
      rw [map_append] at unique
      intro mem
      exact (nodup_append.mp unique).2.2 name mem name mem_cons_self rfl
    have moved : before ++ (name, value) :: others = (before ++ [(name, value)]) ++ others := by
      simp
    have tail : String.ofList ("@" ++ name).toList.tail = name := by
      simp
    rw [moved] at unique
    rw [map_cons, cons_append, attributeEntry, ofEntries]
    simp only [isAttributeName_attributeEntry, if_true, tail, setPair_of_not_mem isNew, moved]
    exact ih _ unique

theorem Element.ofItems_eq {values : List Value}
    (builds : ∀ value ∈ values, ofValue tag value = .ok (built (tag, value))) :
    ofItems tag values = .ok (values.map fun value => built (tag, value)) := by
  induction values with
  | nil => rw [ofItems, map_nil]
  | cons value _ ih =>
    have restBuilt := ih (forall_mem_cons.mp builds).2
    rw [ofItems, builds value mem_cons_self, restBuilt]
    rfl

theorem Element.ofChild_group {values : List Value} (full : values ≠ [])
    (nodes : ∀ value ∈ values, IsNode value)
    (builds : ∀ value ∈ values, ofValue tag value = .ok (built (tag, value))) :
    ofChild tag (groupEntry (tag, values)).2 =
      .ok (values.map fun value => built (tag, value)) := by
  rcases values with _ | ⟨single, _ | ⟨second, others⟩⟩
  · exact absurd rfl full
  · have node := nodes single mem_cons_self
    have isBuilt := builds single mem_cons_self
    have wrapped : ofChild tag single = (do return [← ofValue tag single]) := by
      cases single with
      | list => exact node.elim
      | _ => rw [ofChild]; simp
    rw [groupEntry, wrapped, isBuilt]
    rfl
  · simp only [groupEntry]
    rw [ofChild, ofItems_eq builds]

theorem Element.ofEntries_groups (full : ∀ group ∈ groups, group.2 ≠ [])
    (tags : ∀ group ∈ groups, IsChildTag group.1) (nodes : ∀ pair ∈ groups.pairs, IsNode pair.2)
    (builds : ∀ pair ∈ groups.pairs, ofValue pair.1 pair.2 = .ok (built pair)) (tag : String)
    (attributes : List (String × String)) (text : String) (before : List Element) (rest : Entries) :
    ofEntries (.mk tag attributes text before) (groups.map groupEntry ++ rest) =
      ofEntries (.mk tag attributes text (before ++ groups.pairs.map built)) rest := by
  induction groups generalizing before with
  | nil => simp [Groups.pairs]
  | cons group others ih =>
    obtain ⟨name, values⟩ := group
    have inFirst : ∀ value ∈ values, (name, value) ∈ Groups.pairs ((name, values) :: others) := by
      intro value mem
      simp [Groups.pairs, mem]
    have inOthers :
        ∀ pair ∈ Groups.pairs others, pair ∈ Groups.pairs ((name, values) :: others) := by
      intro pair mem
      rw [Groups.pairs, flatMap_cons, mem_append]
      exact .inr mem
    have isChild := tags (name, values) mem_cons_self
    have added :=
      ofChild_group (full _ mem_cons_self) (fun value mem => nodes _ (inFirst value mem))
        (fun value mem => builds _ (inFirst value mem))
    have notText : (name == textEntry) = false := by
      simpa using isChild.2
    have step :=
      ih (forall_mem_cons.mp full).2 (forall_mem_cons.mp tags).2
        (fun pair mem => nodes pair (inOthers pair mem))
        (fun pair mem => builds pair (inOthers pair mem))
        (before ++ values.map fun value => built (name, value))
    have key : groupEntry (name, values) = (.text name, (groupEntry (name, values)).2) := by
      rw [← fst_groupEntry (name, values)]
    have pairsShape :
        (Groups.pairs ((name, values) :: others)).map built =
          (values.map fun value => built (name, value)) ++ (Groups.pairs others).map built := by
      simp [Groups.pairs]
    rw [map_cons, cons_append, key, ofEntries, pairsShape, ← append_assoc, ← step]
    simp only [isChild.1, notText, added]
    rfl

theorem Element.ofEntries_text (tag : String) (attributes : List (String × String))
    (children : List Element) (text : String) :
    ofEntries (.mk tag attributes "" children) (textEntries text) =
      .ok (.mk tag attributes text children) := by
  unfold textEntries
  split
  · rename_i isEmpty
    rw [ofEntries, String.isEmpty_iff.mp isEmpty]
  · have noAttribute : isAttributeName textEntry = false := by decide
    rw [ofEntries]
    simp only [noAttribute, Bool.false_eq_true, if_false, beq_self_eq_true, if_true]
    change ofEntries (.mk tag attributes text children) [] = _
    rw [ofEntries]

/--
Reading the element that is made from the value of an element gives the value again, with its
entries, its markers and the repetitions of each tag in the same order.
-/
theorem Element.toValue_of_ofValue_toValue {element : Element} (ordinary : element.IsOrdinary) :
    ∃ made,
      ofValue element.tag element.toValue = .ok made ∧
        made.tag = element.tag ∧ made.toValue = element.toValue := by
  induction ordinary with
  | @mk tag attributes text children unique tags _ inductionHypothesis =>
    have proper := Groups.isProper_gather (childPairs children)
    have builds :
        ∀ pair ∈ Groups.pairs (gather (childPairs children)),
          ∃ made, ofValue pair.1 pair.2 = .ok made ∧ made.tag = pair.1 ∧ made.toValue = pair.2 := by
      intro pair member
      obtain ⟨child, childMember, rfl⟩ := mem_pairs_gathered member
      exact inductionHypothesis child childMember
    have nodes :
        ∀ pair ∈ Groups.pairs (gather (childPairs children)), IsNode pair.2 := by
      intro pair member
      obtain ⟨child, _, rfl⟩ := mem_pairs_gathered member
      exact isNode_toValue child
    have groupTags :
        ∀ group ∈ gather (childPairs children), IsChildTag group.1 := by
      intro group member
      obtain ⟨child, childMember, same⟩ := exists_child_of_group member
      exact same ▸ tags child childMember
    have value := toValue_eq_assembled tag text unique tags
    generalize gather (childPairs children) = groups at proper builds nodes groupTags value
    have : Nonempty Element := ⟨.mk tag attributes text children⟩
    choose! built made madeTag madeValue using builds
    -- the children that are made, group by group, have the tags and the values of the groups
    have madeTags : ∀ child ∈ (Groups.pairs groups).map built, IsChildTag child.tag := by
      intro child member
      obtain ⟨pair, pairMember, rfl⟩ := List.mem_map.mp member
      obtain ⟨group, groupMember, inGroup⟩ := List.mem_flatMap.mp pairMember
      obtain ⟨_, _, rfl⟩ := List.mem_map.mp inGroup
      rw [madeTag _ pairMember]
      exact groupTags group groupMember
    have madePairs : childPairs ((Groups.pairs groups).map built) = Groups.pairs groups := by
      rw [childPairs, List.map_map]
      conv_rhs => rw [← List.map_id (Groups.pairs groups)]
      apply List.map_congr_left
      intro pair member
      simp [madeTag pair member, madeValue pair member]
    have regathered := Groups.gather_pairs proper
    have readAgain :
        (Element.mk tag attributes (Text.trimmed text) ((Groups.pairs groups).map built)).toValue =
          assembled attributes groups (Text.trimmed text) := by
      rw [toValue_eq_assembled tag _ unique madeTags, madePairs, regathered, Text.trimmed_trimmed]
    refine ⟨.mk tag attributes (Text.trimmed text) ((Groups.pairs groups).map built), ?_, rfl, ?_⟩
    · rw [value, assembled]
      split
      · rename_i isLeaf
        simp only [Bool.and_eq_true, List.isEmpty_iff] at isLeaf
        obtain ⟨rfl, rfl⟩ := isLeaf
        rw [Element.tag, ofValue]
        · rfl
        · simp
        · simp
      · have attributesSet :=
          ofEntries_attributes [] unique tag "" []
            (groups.map groupEntry ++ textEntries (Text.trimmed text))
        have childrenSet :=
          ofEntries_groups proper.full groupTags nodes made tag attributes "" []
            (textEntries (Text.trimmed text))
        rw [Element.tag, ofValue, List.append_assoc, attributesSet, List.nil_append, childrenSet,
          ofEntries_text, List.nil_append]
    · rw [readAgain, value]

/-- An order whose items stand around a note. -/
theorem Element.toValue_of_ofValue_order : ∃ made,
      ofValue "order"
          (.object .xml [(.text "@id", .text "7"),
              (.text "item", .list .xml [.text "pen", .object .xml [(.text "@size", .text "4")]]),
              (.text "note", .text ""), (.text "#text", .text "two items")]) =
        .ok made ∧
      made.tag = "order" ∧
      made.toValue =
        .object .xml
          [(.text "@id", .text "7"),
            (.text "item", .list .xml [.text "pen", .object .xml [(.text "@size", .text "4")]]),
            (.text "note", .text ""), (.text "#text", .text "two items")] := by
  let order : Element :=
    .mk "order" [("id", "7")] " two items "
      [.mk "item" [] "pen" [], .mk "note" [] " " [], .mk "item" [("size", "4")] "" []]
  have ordinary : IsOrdinary order := by
    refine .mk (by decide) ?_ ?_
    · simp only [List.mem_cons, List.not_mem_nil, or_false, forall_eq_or_imp, forall_eq]
      exact ⟨⟨rfl, by decide⟩, ⟨rfl, by decide⟩, rfl, by decide⟩
    · simp only [List.mem_cons, List.not_mem_nil, or_false, forall_eq_or_imp, forall_eq]
      exact ⟨.mk (by decide) (by simp) (by simp), .mk (by decide) (by simp) (by simp),
        .mk (by decide) (by simp) (by simp)⟩
  have value :
      order.toValue =
        .object .xml
          [(.text "@id", .text "7"),
            (.text "item", .list .xml [.text "pen", .object .xml [(.text "@size", .text "4")]]),
            (.text "note", .text ""), (.text "#text", .text "two items")] := by
    have outer : Text.trimmed " two items " = "two items" := by decide
    have inner : Text.trimmed "pen" = "pen" := by decide
    have blank : Text.trimmed " " = "" ∧ Text.trimmed "" = "" := by decide
    simp [order, toValue, childEntries, addChild, Entries.ofList, Entries.insertAll,
      Entries.insert, setPair, Entries.find?, lookup_cons_eq_ite, attributeEntry, Element.tag,
      textEntry, outer, inner, blank]
  rw [← value]
  exact toValue_of_ofValue_toValue ordinary

end Xml

end Weave
