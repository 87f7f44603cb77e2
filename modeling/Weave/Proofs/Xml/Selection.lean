import Weave.Proofs.Xml.RoundTrip
import Weave.Value.Select

namespace Weave

open List

/-!
# Selectors on elements

The children of an element with one tag are stored as nothing, as one value or as a list of values.
Selectors do not show which: they find the children with a tag, the first of them, or an attribute.
-/

namespace Xml

variable {tag : String} {entries : Entries} {before : List Value} {children : List Element}

/-- What is stored for the children with one tag. -/
def stored : List Value → Option Value
  | [] => none
  | [value] => some value
  | values => some (.list .xml values)

/-- The values of the children with a tag, in order. -/
def Element.valuesOf (tag : String) (children : List Element) : List Value :=
  (children.filter (·.tag == tag)).map toValue

namespace Element

theorem find?_addChild_of_ne (differs : key ≠ .text tag) (entries : Entries) (value : Value) :
    (addChild entries tag value).find? key = entries.find? key := by
  unfold addChild
  split <;> rw [Entries.find?_insert, if_neg differs]

/-- A child joins the children that are stored under its tag. -/
theorem find?_addChild_self (nodes : ∀ value ∈ before, IsNode value)
    (isStored : entries.find? (.text tag) = stored before) (value : Value) :
    (addChild entries tag value).find? (.text tag) = stored (before ++ [value]) := by
  unfold addChild
  rw [isStored]
  rcases before with _ | ⟨first, _ | ⟨second, others⟩⟩
  · exact (Entries.find?_insert ..).trans (if_pos rfl)
  · cases first with
    | list => exact (nodes _ mem_cons_self).elim
    | _ => exact (Entries.find?_insert ..).trans (if_pos rfl)
  · exact (Entries.find?_insert ..).trans (if_pos rfl)

theorem find?_childEntries_of_ne (differs : ∀ child ∈ children, key ≠ .text child.tag)
    (entries : Entries) : (childEntries entries children).find? key = entries.find? key := by
  induction children generalizing entries with
  | nil => rfl
  | cons _ _ ih =>
    obtain ⟨firstDiffers, restDiffer⟩ := forall_mem_cons.mp differs
    rw [childEntries, ih restDiffer, find?_addChild_of_ne firstDiffers]

theorem find?_childEntries (nodes : ∀ value ∈ before, IsNode value)
    (isStored : entries.find? (.text tag) = stored before) (children : List Element) :
    (childEntries entries children).find? (.text tag) =
      stored (before ++ valuesOf tag children) := by
  induction children generalizing entries before with
  | nil => rw [childEntries, isStored, valuesOf, filter_nil, map_nil, append_nil]
  | cons child _ ih =>
    rw [childEntries]
    by_cases same : child.tag = tag
    · subst same
      have nodesAdded :=
        forall_mem_append.mpr ⟨nodes, forall_mem_singleton.mpr (isNode_toValue child)⟩
      rw [ih nodesAdded (find?_addChild_self nodes isStored _)]
      simp [valuesOf]
    · have differs : Key.text tag ≠ .text child.tag := fun isSame => same (Key.text.inj isSame).symm
      rw [ih nodes ((find?_addChild_of_ne differs ..).trans isStored)]
      simp [valuesOf, same]

theorem find?_attributes (attributes : List (String × String)) (name : String) :
    Entries.find? (attributes.map attributeEntry) (.text ("@" ++ name)) =
      (attributes.lookup name).map .text := by
  rw [Entries.find?]
  induction attributes with
  | nil => rfl
  | cons named _ ih =>
    obtain ⟨present, value⟩ := named
    rw [map_cons, attributeEntry, lookup_cons_eq_ite, lookup_cons_eq_ite, ih]
    by_cases same : name = present <;> simp [same]

/-- An element with an attribute or a child is an object, and its text is under a key of its own. -/
theorem exists_entries {attributes : List (String × String)}
    (hasParts : children ≠ [] ∨ attributes ≠ []) (tag text : String) :
    ∃ entries : Entries,
      (Element.mk tag attributes text children).toValue = .object .xml entries ∧
        ∀ key, key ≠ .text textEntry →
          entries.find? key =
            (childEntries (Entries.ofList (attributes.map attributeEntry)) children).find? key := by
  have notText : (children.isEmpty && attributes.isEmpty) = false := by
    simpa [or_iff_not_imp_left] using hasParts
  rw [toValue]
  simp only [notText, Bool.false_eq_true, if_false]
  split
  · exact ⟨_, rfl, fun _ _ => rfl⟩
  · exact ⟨_, rfl, fun key differs => (Entries.find?_insert ..).trans (if_neg differs)⟩

end Element

/-- The value of an element is the only finding, and the first element, that it stands for. -/
theorem single_toValue (element : Element) : Value.findings element.toValue = [element.toValue] ∧
      Value.firstElement element.toValue = element.toValue := by
  obtain ⟨tag, attributes, text, children⟩ := element
  rw [Element.toValue]
  split
  · exact ⟨rfl, rfl⟩
  · split <;> exact ⟨rfl, rfl⟩

/-- However children are stored, all of them are found, or the first. -/
theorem selected_stored (children : List Element) :
    Value.findings ((stored (children.map Element.toValue)).getD .null) =
        children.map Element.toValue ∧
      Value.firstElement ((stored (children.map Element.toValue)).getD .null) =
        (children.head?.map Element.toValue).getD .null := by
  rcases children with _ | ⟨first, _ | ⟨second, others⟩⟩
  · exact ⟨rfl, rfl⟩
  · exact single_toValue first
  · exact ⟨rfl, rfl⟩

/--
On an element with a child or an attribute, a selector finds all children with a tag, the first of
them, or an attribute, in every case as the document has them.
-/
theorem Element.select_toValue {element : Element} (ordinary : element.IsOrdinary)
    (hasParts : element.children ≠ [] ∨ element.attributes ≠ []) (tag : String)
    (isChild : IsChildTag tag) (notEmpty : tag ≠ "") (notStarred : tag.toList.head? ≠ some '*')
    (name : String) :
    element.toValue.select (.ofText ("*" ++ tag)) =
        .ok (.array ((element.children.filter (·.tag == tag)).map toValue)) ∧
      element.toValue.select (.ofText tag) =
        .ok (((element.children.find? (·.tag == tag)).map toValue).getD .null) ∧
      element.toValue.select (.ofText ("@" ++ name)) =
        .ok (((element.attributes.lookup name).map .text).getD .null) := by
  obtain ⟨root, attributes, text, children⟩ := element
  cases ordinary with
  | mk unique tags =>
    have parts : children ≠ [] ∨ attributes ≠ [] := hasParts
    obtain ⟨entries, isObject, found⟩ := exists_entries parts root text
    rw [Entries.ofList_of_nodup (nodup_attributeEntry unique)] at found
    have noAttribute : Entries.find? (attributes.map attributeEntry) (.text tag) = stored [] := by
      refine lookup_eq_none_iff.mpr fun entry member => bne_iff_ne.mpr fun same => ?_
      exact not_mem_attributeEntry isChild attributes (same ▸ mem_map_of_mem member)
    have tagFound : entries.find? (.text tag) = stored (valuesOf tag children) :=
      (found _ fun same => isChild.2 (Key.text.inj same)).trans
        (find?_childEntries (forall_mem_nil _) noAttribute children)
    -- No tag of a child looks like the key of an attribute.
    have differs {other : String} (isOther : isAttributeName other = false) :
        Key.text ("@" ++ name) ≠ .text other := by
      intro same
      rw [← Key.text.inj same, isAttributeName_attributeEntry] at isOther
      cases isOther
    have attributeFound :
        entries.find? (.text ("@" ++ name)) = (attributes.lookup name).map .text := by
      rw [found _ (differs (by decide)), find?_childEntries_of_ne, find?_attributes]
      exact fun child member => differs (tags child member).1
    obtain ⟨all, first⟩ := selected_stored (children.filter (·.tag == tag))
    have isEvery : Selector.ofText ("*" ++ tag) = .every tag := by simp [Selector.ofText]
    have isKey : Selector.ofText tag = .key tag := by
      unfold Selector.ofText
      split
      · simp_all
      · simp_all [IsChildTag, isAttributeName]
      · rfl
    have isAttribute : Selector.ofText ("@" ++ name) = .attribute name := by simp [Selector.ofText]
    rw [isObject, isEvery, isKey, isAttribute]
    refine ⟨?_, ?_, ?_⟩
    · simp [Value.select, Value.every, Value.everyIn, Value.entry, tagFound, notEmpty, valuesOf,
        all, Element.children]
    · simp [Value.select, Value.pick, Value.entry, tagFound, valuesOf, first, Element.children]
    · simp [Value.select, Value.pick, Value.entry, attributeFound, Element.attributes]

/-- Two of three children have the tag, and the one between them is empty. -/
theorem Element.select_toValue_lines : ∃ element : Element,
      element.IsOrdinary ∧ (element.children ≠ [] ∨ element.attributes ≠ []) ∧
        element.toValue.select (.ofText ("*" ++ "line")) =
          .ok (.array [.text "pen", .text "ink"]) ∧
        element.toValue.select (.ofText "line") = .ok (.text "pen") ∧
        element.toValue.select (.ofText ("@" ++ "id")) = .ok (.text "7") := by
  have leaf (tag text : String) : (Element.mk tag [] text []).IsOrdinary :=
    .mk nodup_nil (forall_mem_nil _) (forall_mem_nil _)
  have ordinary :
      (Element.mk "order" [("id", "7")] ""
        [.mk "line" [] "pen" [], .mk "note" [] "" [], .mk "line" [] "ink" []]).IsOrdinary :=
    .mk (nodup_singleton _) (by simp [tag, IsChildTag]; decide) (by simp [leaf])
  have selected := select_toValue ordinary (.inl (cons_ne_nil _ _)) "line"
    ⟨by decide, by decide⟩ (by decide) (by decide) "id"
  exact ⟨_, ordinary, .inl (cons_ne_nil _ _), selected⟩

end Xml

end Weave
