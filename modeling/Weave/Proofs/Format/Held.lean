import Weave.Output
import Weave.Proofs.Value.Held

namespace Weave

open List Value

/-!
# Functions at the boundary

What a reader makes of a text holds no functions, and what a run hands in or out is changed only in
its lists and objects, so a property of all functions of a value is kept.
-/

/-! ## Tuples and marks -/

variable {holds : Function → Prop} {value : Value}

namespace Value

theorem normaliseAll_eq_map (items : List Value) : normaliseAll items = items.map normalise := by
  induction items with
  | nil => rfl
  | cons _ _ ih => rw [normaliseAll, ih, map_cons]

theorem normaliseEntries_eq_map (entries : Entries) :
    normaliseEntries entries = entries.map fun entry => (entry.1, entry.2.normalise) := by
  induction entries with
  | nil => rfl
  | cons _ _ ih => rw [normaliseEntries, ih, map_cons]

theorem all_normalise (isGood : value.All holds) : value.normalise.All holds := by
  induction value using byParts with
  | scalar value isScalar => cases value <;> first | exact isGood | cases isScalar
  | list _ _ ih =>
    rw [all_list] at isGood
    rw [normalise, all_list, normaliseAll_eq_map]
    intro item mem
    obtain ⟨original, isItem, rfl⟩ := mem_map.mp mem
    exact ih original isItem (isGood original isItem)
  | tuple _ ih =>
    rw [all_tuple] at isGood
    rw [normalise, all_list, normaliseAll_eq_map]
    intro item mem
    obtain ⟨original, isItem, rfl⟩ := mem_map.mp mem
    exact ih original isItem (isGood original isItem)
  | object _ _ ih =>
    rw [all_object] at isGood
    rw [normalise, all_object, normaliseEntries_eq_map]
    intro entry mem
    obtain ⟨original, isEntry, rfl⟩ := mem_map.mp mem
    exact ih original isEntry (isGood original isEntry)
  | function => exact isGood

theorem unmarkedAll_eq_mapM (items : List Value) : unmarkedAll items = items.mapM unmarked := by
  induction items with
  | nil => rfl
  | cons _ _ ih => rw [unmarkedAll, ih, mapM_cons]

theorem unmarkedEntries_eq_mapM (entries : Entries) : unmarkedEntries entries =
      entries.mapM fun entry => do return (entry.1, ← entry.2.unmarked) := by
  induction entries with
  | nil => rfl
  | cons _ _ ih => simp only [unmarkedEntries, ih, mapM_cons, bind_assoc, pure_bind]

theorem unmarkedAll_eq_self {items : List Value}
    (areUnmarked : ∀ item ∈ items, item.unmarked = .ok item) :
    unmarkedAll items = .ok items := by
  induction items with
  | nil => rfl
  | cons _ _ ih =>
    rw [forall_mem_cons] at areUnmarked
    rw [unmarkedAll, areUnmarked.1, ih areUnmarked.2]
    rfl

theorem unmarkedEntries_eq_self {entries : Entries}
    (areUnmarked : ∀ entry ∈ entries, entry.2.unmarked = .ok entry.2) :
    unmarkedEntries entries = .ok entries := by
  induction entries with
  | nil => rfl
  | cons _ _ ih =>
    rw [forall_mem_cons] at areUnmarked
    rw [unmarkedEntries, areUnmarked.1, ih areUnmarked.2]
    rfl

theorem mem_of_textOf? (isText : textOf? entries = some value) :
    (Key.text textEntry, value) ∈ entries := by
  unfold textOf? at isText
  split at isText
  · cases isText
  · cases isText
  case _ found isFound =>
    obtain rfl := Option.some.inj isText
    exact mem_of_lookup isFound

theorem unmarked_leaves (isGood : value.All holds) : Leaves (All holds) value.unmarked := by
  induction value using byParts with
  | scalar value isScalar => cases value <;> first | exact .ok isGood | cases isScalar
  | list _ _ ih =>
    rw [all_list] at isGood
    rw [unmarked, unmarkedAll_eq_mapM]
    refine .bind (.mapM fun item mem => ih item mem (isGood item mem)) fun found areGood => ?_
    exact .ok (all_list.mpr areGood)
  | tuple => exact .ok isGood
  | object origin entries ih =>
    rw [all_object] at isGood
    have leaves : Leaves (AllUnder holds) (unmarkedEntries entries) := by
      rw [unmarkedEntries_eq_mapM]
      refine .mapM fun entry mem => ?_
      refine .bind (ih entry mem (isGood entry mem)) ?_
      exact fun found foundIsGood => .ok foundIsGood
    cases origin with
    | xml =>
      refine .bind leaves fun found areGood => .ok ?_
      cases isText : textOf? found with
      | some => exact areGood _ (mem_of_textOf? isText)
      | none => exact all_object.mpr areGood
    | data =>
      refine .bind leaves fun found areGood => ?_
      cases isText : textOf? found with
      | none => exact .ok (all_object.mpr areGood)
      | some =>
        refine .bind (.any _) fun isOnlyText _ => .ok ?_
        cases isOnlyText with
        | true => exact areGood _ (mem_of_textOf? isText)
        | false => exact all_object.mpr areGood
  | function => exact .ok isGood

end Value

/-! ## JSON -/

namespace Json

/-- The functions of what the reader of the parts leaves have the property. -/
def LeavesAll (holds : Function → Prop) (item : List Char → Except Defect (Value × List Char)) :
    Prop :=
  ∀ text, Leaves (fun found => found.1.All holds) (item text)

theorem number_leaves : LeavesAll holds number := by
  intro text
  unfold number
  dsimp only
  -- The first two cases are those of the sign.
  split
  all_goals
    split
    · exact .error _
    split
    · split
      · exact .error _
      · exact .ok (all_of_isScalar rfl)
    · exact .ok (all_of_isScalar rfl)

theorem scalar_leaves : LeavesAll holds scalar := by
  intro text
  have words : ∀ word ∈ wordValues, word.2.isScalar = true := by simp [wordValues, isScalar]
  unfold scalar
  dsimp only
  split
  case _ result found =>
    obtain ⟨word, isWord, starts⟩ := exists_of_findSome?_eq_some found
    obtain ⟨_, _, rfl⟩ := Option.map_eq_some_iff.mp starts
    exact .ok (all_of_isScalar (words word isWord))
  · exact number_leaves text

variable {item : List Char → Except Defect (Value × List Char)}

theorem seriesOf_leaves {α : Type} {part : List Char → Except Defect (α × List Char)}
    {good : α → Prop} (leaves : ∀ text, Leaves (fun found => good found.1) (part text))
    (closing : Char) (bound : Nat) (text : List Char) :
    Leaves (fun found => ∀ item ∈ found.1, good item) (seriesOf part closing bound text) := by
  induction bound generalizing text with
  | zero => exact .error _
  | succ _ ih =>
    refine .bind (leaves _) fun first isGood => ?_
    dsimp only
    split
    · exact .error _
    · split
      · refine .bind (ih _) fun others areGood => .ok ?_
        exact forall_mem_cons.mpr ⟨isGood, areGood⟩
      · split
        · exact .ok (forall_mem_singleton.mpr isGood)
        · exact .error _

theorem entryOf_leaves (leaves : LeavesAll holds item) (text : List Char) :
    Leaves (fun found => found.1.2.All holds) (entryOf item text) := by
  unfold entryOf
  split
  · refine .bind (.any _) fun name _ => ?_
    dsimp only
    split
    · exact .bind (leaves _) fun value isGood => .ok isGood
    · exact .error _
  · exact .error _

theorem valueWithin_leaves (bound : Nat) : LeavesAll holds (valueWithin bound) := by
  induction bound with
  | zero => exact fun _ => .error _
  | succ _ ih =>
    intro text
    unfold valueWithin
    split
    · exact .bind (.any _) fun _ _ => .ok (all_of_isScalar rfl)
    · split
      · exact .ok (all_list.mpr (by simp))
      · exact .bind (seriesOf_leaves (fun _ => ih _) _ _ _) fun items areGood =>
          .ok (all_list.mpr areGood)
    · split
      · exact .ok (all_object.mpr (by simp))
      · exact .bind (seriesOf_leaves (entryOf_leaves ih) _ _ _) fun entries areGood =>
          .ok (all_object.mpr (AllUnder.ofList areGood))
    · exact scalar_leaves _

theorem read_leaves (source : List Char) : Leaves (Value.All holds) (read source) := by
  refine .bind (@valueWithin_leaves holds _ _) fun found isGood => ?_
  dsimp only
  split
  · exact .ok isGood
  · exact .error _

end Json

/-! ## XML -/

namespace Xml.Element

theorem addChild_all (areGood : AllUnder holds entries) (tag : String) (isGood : value.All holds) :
    AllUnder holds (addChild entries tag value) := by
  unfold addChild
  split
  · exact areGood.insert _ isGood
  case _ items found =>
    have itemsAreGood := all_list.mp (areGood.lookup found)
    refine areGood.insert _ (all_list.mpr (forall_mem_append.mpr ⟨itemsAreGood, ?_⟩))
    exact forall_mem_singleton.mpr isGood
  case _ first _ found =>
    refine areGood.insert _ (all_list.mpr ?_)
    simpa using ⟨areGood.lookup found, isGood⟩

mutual

theorem toValue_all : ∀ element : Element, element.toValue.All holds
  | .mk _ attrs _ children => by
    have attributesAreGood : AllUnder holds (attrs.map attributeEntry) := by
      intro entry mem
      obtain ⟨_, _, rfl⟩ := mem_map.mp mem
      exact all_of_isScalar rfl
    have areGood := childEntries_all children _ attributesAreGood.ofList
    unfold toValue
    dsimp only
    split
    · exact all_of_isScalar rfl
    split
    · exact all_object.mpr areGood
    · exact all_object.mpr (areGood.insert _ (all_of_isScalar rfl))
termination_by structural element => element

theorem childEntries_all : ∀ (children : List Element) (entries : Entries), AllUnder holds entries →
      AllUnder holds (childEntries entries children)
  | [], _, areGood => areGood
  | child :: rest, _, areGood =>
    childEntries_all rest _ (addChild_all areGood child.tag (toValue_all child))
termination_by structural children => children

end

end Xml.Element

/-! ## All formats -/

namespace Format

theorem rowOf_all (names cells : List String) : (rowOf names cells).All holds := by
  refine all_object.mpr (AllUnder.ofList ?_)
  refine forall_mem_append.mpr ⟨forall_mem_append.mpr ⟨?_, ?_⟩, ?_⟩
  · intro entry mem
    obtain ⟨_, _, rfl⟩ := mem_map.mp mem
    exact all_of_isScalar rfl
  · split
    · simp
    · refine forall_mem_singleton.mpr (all_list.mpr ?_)
      exact all_of_areScalars (fun _ => rfl) _
  · intro entry mem
    obtain ⟨_, _, rfl⟩ := mem_map.mp mem
    exact all_of_isScalar rfl

theorem causedByDefect_leaves {α : Type} {holds : α → Prop} {result : Except Defect α}
    (leaves : Leaves holds result) :
    Leaves holds (causedByDefect result) := by
  cases result with
  | ok found => exact .ok (leaves found rfl)
  | error => exact .error _

theorem readJson_leaves (options : Options) (isGood : value.All holds) :
    Leaves (Value.All holds) (readJson options value) := by
  unfold readJson
  split
  · exact .ok isGood
  · exact .ok isGood
  · exact .bind (.any _) fun text _ => causedByDefect_leaves (Json.read_leaves _)

theorem readCsv_leaves (options : Options) (isGood : value.All holds) :
    Leaves (Value.All holds) (readCsv options value) := by
  unfold readCsv
  split
  · exact .ok isGood
  · refine .bind (.any _) fun text _ => .bind (.any _) fun sep _ => ?_
    refine .bind (.any _) fun quote _ => .bind (.any _) fun records _ => ?_
    split
    · refine .ok (all_list.mpr fun row mem => ?_)
      cases records with
      | nil => cases mem
      | cons names =>
        obtain ⟨cells, _, rfl⟩ := mem_map.mp mem
        exact rowOf_all names cells
    · refine .ok (all_list.mpr fun row mem => ?_)
      obtain ⟨_, _, rfl⟩ := mem_map.mp mem
      exact all_list.mpr (all_of_areScalars (fun _ => rfl) _)

theorem read_leaves (format : Format) (options : Options) (isGood : value.All holds) :
    Leaves (Value.All holds) (format.read options value) := by
  unfold read
  dsimp only
  split
  case _ found isFound =>
    refine .ok ?_
    cases format with
    | native => exact Except.ok.inj isFound ▸ isGood
    | json => exact readJson_leaves options isGood found isFound
    | csv => exact readCsv_leaves options isGood found isFound
    | xml =>
      refine Leaves.bind (.any _) (fun text _ => ?_) found isFound
      split
      · exact .ok (all_object.mpr (forall_mem_singleton.mpr (Xml.Element.toValue_all _)))
      · exact .error _
  · exact .error _

theorem readNamed_leaves (name : String) (options : Options) (isGood : value.All holds) :
    Leaves (Value.All holds) (readNamed name options value) := by
  unfold readNamed
  split
  · exact read_leaves _ options isGood
  · exact .error _

theorem writeRows_leaves (options : Options) (rows : List Value) :
    Leaves (Value.All holds) (writeRows options rows) := by
  unfold writeRows
  split
  · refine .bind (.any _) fun columns _ => .bind (.any _) fun layout _ => ?_
    simp only [pure_bind]
    split
    · refine .bind (.any _) fun header _ => .bind (.any _) fun top _ => ?_
      exact .bind (.any _) fun body _ => .ok (all_of_isScalar rfl)
    · refine .bind (.any _) fun top _ => ?_
      exact .bind (.any _) fun body _ => .ok (all_of_isScalar rfl)
  · refine .bind (.any _) fun layout _ => .bind (.any _) fun cells _ => ?_
    exact .bind (.any _) fun text _ => .ok (all_of_isScalar rfl)

theorem write_leaves (format : Format) (options : Options) (isGood : value.All holds) :
    Leaves (Value.All holds) (format.write options value) := by
  unfold write
  dsimp only
  split
  case _ found isFound =>
    refine .ok ?_
    cases format with
    | native => exact Except.ok.inj isFound ▸ isGood
    | json =>
      exact Leaves.bind (.any _) (fun _ _ => .bind (.any _) fun _ _ => .ok (all_of_isScalar rfl))
        found isFound
    | xml =>
      refine Leaves.bind (.any _) (fun root _ => .bind (.any _) fun element _ => ?_) found isFound
      exact .bind (.any _) fun text _ => .ok (all_of_isScalar rfl)
    | csv =>
      simp only [writeCsv] at isFound
      split at isFound
      · exact writeRows_leaves options _ found isFound
      · exact writeRows_leaves options _ found isFound
      · cases isFound
  · exact .error _

end Format

theorem OutputDirective.finish_leaves (directive : Option OutputDirective)
    (isGood : value.All holds) :
    Leaves (Value.All holds) (OutputDirective.finish directive value) := by
  unfold finish
  split
  · exact unmarked_leaves isGood
  · exact unmarked_leaves isGood
  case _ directive _ =>
    unfold render
    dsimp only
    split
    case _ written isWritten =>
      exact .ok (Format.write_leaves directive.format directive.properties isGood written isWritten)
    · exact .error _

end Weave
