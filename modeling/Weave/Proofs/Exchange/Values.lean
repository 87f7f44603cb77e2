import Weave.Core.Sequences
import Weave.Proofs.Value.Entries
import Weave.Value.Coerce
import Weave.Value.Select

namespace Weave

open List

/-!
# Functions inside values

Operations on values take the functions that they hold as they are: if these are exchanged for
others of the same sort, a result is the same, but for the functions that it holds itself.  Only
comparing two functions can tell them apart.
-/

variable {holds : Value → Prop} {value : Value}

/-! ## Values and their parts -/

/-- The value has no parts that are values. -/
def Value.isScalar : Value → Bool
  | .list .. | .tuple _ | .object .. | .function _ => false
  | _ => true

/-- The values that a value is put together of. -/
def Value.parts : Value → List Value
  | .list _ items | .tuple items => items
  | .object _ entries => entries.map (·.2)
  | _ => []

namespace Value

mutual

/-- What holds of a value if it holds of its parts holds of all values. -/
theorem fromParts (step : ∀ value : Value, (∀ part ∈ value.parts, holds part) → holds value) :
    ∀ value : Value, holds value
  | .list _ items => step _ (ofItems step items)
  | .tuple items => step _ (ofItems step items)
  | .object _ entries => step _ (ofEntries step entries)
  | .function _ => step _ (by simp [parts])
  | .null => step _ (by simp [parts])
  | .bool _ => step _ (by simp [parts])
  | .int _ => step _ (by simp [parts])
  | .float _ => step _ (by simp [parts])
  | .text _ => step _ (by simp [parts])
  | .bytes _ => step _ (by simp [parts])
  | .buffer _ => step _ (by simp [parts])
  | .date _ => step _ (by simp [parts])
  | .clock _ => step _ (by simp [parts])
  | .moment _ => step _ (by simp [parts])
  | .period _ => step _ (by simp [parts])
termination_by structural value => value

theorem ofItems (step : ∀ value : Value, (∀ part ∈ value.parts, holds part) → holds value) :
    ∀ items : List Value, ∀ item ∈ items, holds item
  | [] => fun _ mem => absurd mem not_mem_nil
  | item :: rest => forall_mem_cons.mpr ⟨fromParts step item, ofItems step rest⟩
termination_by structural items => items

theorem ofEntries (step : ∀ value : Value, (∀ part ∈ value.parts, holds part) → holds value) :
    ∀ entries : List (Key × Value), ∀ item ∈ entries.map (·.2), holds item
  | [] => fun _ mem => absurd mem not_mem_nil
  | (_, value) :: rest => forall_mem_cons.mpr ⟨fromParts step value, ofEntries step rest⟩
termination_by structural entries => entries

end

/-- What holds of a list or an object if it holds of its parts holds of all values. -/
theorem byParts (scalar : ∀ value : Value, value.isScalar → holds value)
    (list : ∀ origin items, (∀ item ∈ items, holds item) → holds (.list origin items))
    (tuple : ∀ items, (∀ item ∈ items, holds item) → holds (.tuple items)) (object :
      ∀ origin entries, (∀ entry ∈ entries, holds entry.2) → holds (.object origin entries))
    (function : ∀ callee, holds (.function callee)) (value : Value) :
    holds value := by
  induction value using Value.fromParts with
  | step value ih =>
    cases value with
    | list origin items => exact list origin items ih
    | tuple items => exact tuple items ih
    | object origin entries => exact object origin entries (forall_mem_map.mp ih)
    | function callee => exact function callee
    | _ => exact scalar _ rfl

/-! ## Exchanging functions -/

mutual

/-- The value with its functions exchanged. -/
def onFunctions (change : Function → Function) : Value → Value
  | .list origin items => .list origin (onFunctionsAll change items)
  | .tuple items => .tuple (onFunctionsAll change items)
  | .object origin entries => .object origin (onFunctionsEntries change entries)
  | .function callee => .function (change callee)
  | value => value

/-- All items with their functions exchanged. -/
def onFunctionsAll (change : Function → Function) : List Value → List Value
  | [] => []
  | item :: rest => onFunctions change item :: onFunctionsAll change rest

/-- All entries with their functions exchanged. -/
def onFunctionsEntries (change : Function → Function) : List (Key × Value) → List (Key × Value)
  | [] => []
  | (key, value) :: rest => (key, onFunctions change value) :: onFunctionsEntries change rest

end

/-- The value is or holds a function. -/
abbrev holdsFunction (value : Value) : Bool := value.holds isFunction

end Value

/-- An entry with the functions of its value exchanged. -/
def onEntryFunctions (change : Function → Function) (entry : Key × Value) : Key × Value :=
  (entry.1, entry.2.onFunctions change)

namespace Value

variable (change : Function → Function)

@[simp]
theorem onFunctionsAll_eq_map (items : List Value) :
    onFunctionsAll change items = items.map (onFunctions change) := by
  induction items with
  | nil => rfl
  | cons _ _ ih => rw [onFunctionsAll, ih, map_cons]

@[simp]
theorem onFunctionsEntries_eq_map (entries : List (Key × Value)) :
    onFunctionsEntries change entries = entries.map (onEntryFunctions change) := by
  induction entries with
  | nil => rfl
  | cons _ _ ih =>
    rw [onFunctionsEntries, ih]
    rfl

theorem onFunctions_of_isScalar (isScalar : value.isScalar) :
    value.onFunctions change = value := by
  cases value <;> first | rfl | cases isScalar

theorem someHolds_eq_any (test : Value → Bool) (items : List Value) :
    someHolds test items = items.any (·.holds test) := by
  induction items with
  | nil => rfl
  | cons _ _ ih => rw [someHolds, ih, any_cons]

theorem entryHolds_eq_any (test : Value → Bool) (entries : List (Key × Value)) :
    entryHolds test entries = entries.any fun entry => entry.2.holds test := by
  induction entries with
  | nil => rfl
  | cons _ _ ih => rw [entryHolds, ih, any_cons]

theorem areMembers_eq_all (items : List Value) : areMembers items = items.all isMember := by
  induction items with
  | nil => rfl
  | cons _ _ ih => rw [areMembers, ih, all_cons]

theorem any_congr_of_mem {items : List α} (same : ∀ item ∈ items, test item = other item) :
    items.any test = items.any other := by
  have flags : ∀ test : α → Bool, items.any test = (items.map test).any id := by simp
  rw [flags test, flags other, map_congr_left same]

/-- What a test says of the parts of a value, if exchanging functions does not change that. -/
theorem holds_onFunctions {test : Value → Bool}
    (same : ∀ value : Value, test (value.onFunctions change) = test value) (value : Value) :
    (value.onFunctions change).holds test = value.holds test := by
  induction value using Value.byParts with
  | scalar _ isScalar => rw [onFunctions_of_isScalar change isScalar]
  | list origin items ih =>
    have sameHere := same (.list origin items)
    simp only [onFunctions, onFunctionsAll_eq_map] at sameHere
    simp only [onFunctions, onFunctionsAll_eq_map, Value.holds, someHolds_eq_any, any_map, sameHere]
    exact congrArg _ (any_congr_of_mem ih)
  | tuple items ih =>
    have sameHere := same (.tuple items)
    simp only [onFunctions, onFunctionsAll_eq_map] at sameHere
    simp only [onFunctions, onFunctionsAll_eq_map, Value.holds, someHolds_eq_any, any_map, sameHere]
    exact congrArg _ (any_congr_of_mem ih)
  | object origin entries ih =>
    have sameHere := same (.object origin entries)
    simp only [onFunctions, onFunctionsEntries_eq_map] at sameHere
    simp only [onFunctions, onFunctionsEntries_eq_map, Value.holds, entryHolds_eq_any, any_map,
      sameHere]
    exact congrArg _ (any_congr_of_mem ih)
  | function callee => exact same (.function callee)

/-- Exchanging functions neither adds nor removes any. -/
@[simp]
theorem holdsFunction_onFunctions (value : Value) :
    (value.onFunctions change).holdsFunction = value.holdsFunction :=
  holds_onFunctions change (fun value => by cases value <;> rfl) value

theorem data_of_mem_parts (isData : value.holdsFunction = false) :
    ∀ part ∈ value.parts, part.holdsFunction = false := by
  cases value with
  | list origin items | tuple items =>
    simpa [parts, Value.holds, someHolds_eq_any, isFunction] using isData
  | object =>
    refine forall_mem_map.mpr ?_
    simpa [Value.holds, entryHolds_eq_any, isFunction] using isData
  | _ => simp [parts]

/-- Without functions nothing is exchanged. -/
theorem onFunctions_of_data (isData : value.holdsFunction = false) :
    value.onFunctions change = value := by
  induction value using Value.byParts with
  | scalar _ isScalar => exact onFunctions_of_isScalar change isScalar
  | list origin items ih | tuple items ih =>
    have parts := data_of_mem_parts isData
    rw [onFunctions, onFunctionsAll_eq_map,
      map_congr_left fun item isItem => ih item isItem (parts item isItem), map_id']
  | object _ entries ih =>
    have parts := forall_mem_map.mp (data_of_mem_parts isData)
    have same : entries.map (onEntryFunctions change) = entries := by
      refine (map_congr_left fun entry isEntry => ?_).trans (map_id entries)
      exact Prod.ext rfl (ih entry isEntry (parts entry isEntry))
    rw [onFunctions, onFunctionsEntries_eq_map, same]
  | function => cases isData

end Value

/-- The functions that are put in the place of others are of the same sort. -/
structure Function.KeepsSort (change : Function → Function) : Prop where
  kindName : ∀ callee, (change callee).kindName = callee.kindName
  partNames : ∀ callee, (change callee).partNames = callee.partNames
  isMember : ∀ callee, (change callee).isMember = callee.isMember
  parameterCount? : ∀ callee, (change callee).parameterCount? = callee.parameterCount?

/-- Equal functions are exchanged for equal ones, and others for others. -/
def Function.KeepsSame (change : Function → Function) : Prop :=
  ∀ left right, (change left).same (change right) = left.same right

/-! ## Kinds, numbers and texts -/

namespace Value

variable {change : Function → Function}

section

variable (value : Value)

@[simp]
theorem number?_onFunctions : (value.onFunctions change).number? = value.number? := by
  cases value <;> rfl

@[simp]
theorem isTruthy_onFunctions : (value.onFunctions change).isTruthy = value.isTruthy := by
  cases value <;> simp [onFunctions, isTruthy]

@[simp]
theorem isNull_onFunctions : (value.onFunctions change).isNull = value.isNull := by
  cases value <;> rfl

@[simp]
theorem isFunction_onFunctions : (value.onFunctions change).isFunction = value.isFunction := by
  cases value <;> rfl

@[simp]
theorem toFloat_onFunctions : (value.onFunctions change).toFloat = value.toFloat := by
  cases value <;> rfl

@[simp]
theorem toInt_onFunctions : (value.onFunctions change).toInt = value.toInt := by
  cases value <;> rfl

@[simp]
theorem keyOfValue?_onFunctions : Key.ofValue? (value.onFunctions change) = Key.ofValue? value := by
  cases value <;> rfl

theorem isScalar_onFunctions : (value.onFunctions change).isScalar = value.isScalar := by
  cases value <;> rfl

/-- A value with functions has no text, and one without them is not changed. -/
theorem legibly_onFunctions (text : Value → String) :
    (value.onFunctions change).legibly (text (value.onFunctions change)) =
      value.legibly (text value) := by
  cases isData : value.holdsFunction with
  | false => rw [onFunctions_of_data change isData]
  | true =>
    have holds : (value.onFunctions change).holdsFunction = true := by
      rw [holdsFunction_onFunctions, isData]
    have same := @holds_onFunctions change isLongInteger (fun value => by cases value <;> rfl) value
    simp only [legibly, same, holds, isData, if_true]

theorem toText_onFunctions : (value.onFunctions change).toText = value.toText :=
  legibly_onFunctions value shown

theorem preview_onFunctions : (value.onFunctions change).preview = value.preview := by
  have sameText : (value.onFunctions change).toText = _ := toText_onFunctions value
  cases value <;> first | rfl | exact sameText

theorem inline_onFunctions (style : Json.InlineStyle) :
    Json.inline style (value.onFunctions change) = Json.inline style value := by
  have all :
      ∀ items : List Value,
        (∀ item ∈ items, Json.inline style (item.onFunctions change) = Json.inline style item) →
        Json.inlineAll style (items.map (onFunctions change)) = Json.inlineAll style items := by
    intro items same
    induction items with
    | nil => rfl
    | cons _ _ ih =>
      rw [forall_mem_cons] at same
      rw [map_cons, Json.inlineAll, Json.inlineAll, same.1, ih same.2]
  induction value using Value.byParts with
  | scalar _ isScalar => rw [onFunctions_of_isScalar change isScalar]
  | list origin items ih | tuple items ih =>
    simp only [onFunctions, onFunctionsAll_eq_map, Json.inline, all items ih]
  | object _ entries ih =>
    have same :
        Json.inlineEntries style (entries.map (onEntryFunctions change)) =
          Json.inlineEntries style entries := by
      induction entries with
      | nil => rfl
      | cons _ _ others =>
        rw [forall_mem_cons] at ih
        rw [map_cons, Json.inlineEntries, onEntryFunctions, Json.inlineEntries, ih.1, others ih.2]
    simp only [onFunctions, onFunctionsEntries_eq_map, Json.inline, same]
  | function => rfl

theorem toNumeral_onFunctions : (value.onFunctions change).toNumeral = value.toNumeral := by
  rw [toNumeral, toNumeral, number?_onFunctions, toText_onFunctions]

theorem marker_onFunctions : (value.onFunctions change).marker = value.marker := by
  have sameJson : Json.inline _ (value.onFunctions change) = _ :=
    inline_onFunctions value Json.markerStyle
  have sameText : (value.onFunctions change).legibly _ = _ := legibly_onFunctions value quoted
  cases value with
  | null | bool | int | float | text => rfl
  | _ =>
    simp only [onFunctions] at sameJson sameText
    simp only [onFunctions, marker, sameJson, sameText]

theorem groupKey_onFunctions : (value.onFunctions change).groupKey = value.groupKey := by
  rw [groupKey, groupKey, marker_onFunctions]

theorem interpolated_onFunctions :
    (value.onFunctions change).interpolated = value.interpolated := by
  have sameJson : Json.inline _ (value.onFunctions change) = _ :=
    inline_onFunctions value Json.plainStyle
  have sameText : (value.onFunctions change).toText = _ := toText_onFunctions value
  cases value with
  | null | bool => rfl
  | list | object => exact sameJson
  | _ => exact sameText

theorem embedded_onFunctions : (value.onFunctions change).embedded = value.embedded := by
  have sameText : (value.onFunctions change).toText = _ := toText_onFunctions value
  cases value <;> first | rfl | exact sameText

theorem fitsNames_onFunctions (spec : String) :
    (value.onFunctions change).fitsNames spec = value.fitsNames spec := by
  have sameFits : (value.onFunctions change).fitsName = value.fitsName :=
    funext fun _ => by cases value <;> rfl
  simp only [fitsNames, sameFits]

end

variable (keeps : Function.KeepsSort change) (value : Value)

include keeps

theorem kindName_onFunctions : (value.onFunctions change).kindName = value.kindName := by
  cases value <;> try rfl
  · rename_i origin items
    cases origin <;> rfl
  · rename_i origin entries
    cases origin <;> rfl
  · exact keeps.kindName _

theorem typeName_onFunctions : (value.onFunctions change).typeName = value.typeName := by
  cases value <;> try rfl
  exact keeps.kindName _

theorem isMember_onFunctions : (value.onFunctions change).isMember = value.isMember := by
  induction value using Value.byParts with
  | scalar _ isScalar => rw [onFunctions_of_isScalar change isScalar]
  | list => rfl
  | tuple items ih =>
    simp only [onFunctions, onFunctionsAll_eq_map, isMember, areMembers_eq_all, all_map]
    rw [Bool.eq_iff_iff, all_eq_true, all_eq_true]
    exact forall₂_congr fun item isItem => by rw [Function.comp_apply, ih item isItem]
  | object => rfl
  | function callee => exact keeps.isMember callee

theorem requireMember_onFunctions :
    (value.onFunctions change).requireMember = value.requireMember := by
  rw [requireMember, requireMember, isMember_onFunctions keeps]

end Value

end Weave
