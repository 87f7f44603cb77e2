import Mathlib.Data.List.Induction
import Mathlib.Data.List.Nodup
import Weave.DataType.Infer
import Weave.Eval.Step
import Weave.Proofs.Value.Entries

namespace Weave

open List Prod

/-!
# The values of a type

Which values a type stands for, and that unions lose none of them: a value of one of
some types is a value of their union, although the union is flat and holds every type
once.  From this follows what the operations on values do to the types of their operands.
-/

variable {fields : List (String × DataType)} {found left right value : Value}
  {field : String × DataType} {type leftType rightType : DataType} {types : List DataType}
  {name : String} {holds : DataType → Bool}

/--
A value is of a type.  Arrays and objects are lists and objects of data, none that stand for
XML elements.
-/
inductive Value.Inhabits : Value → DataType → Prop
  | any (value : Value) : Inhabits value .any
  | text (value : String) : Inhabits (.text value) .text
  | int (value : Int) : Inhabits (.int value) .number
  | float (value : Float) : Inhabits (.float value) .number
  | boolean (value : Bool) : Inhabits (.bool value) .boolean
  | null : Inhabits .null .null
  | bytes (data : List UInt8) : Inhabits (.bytes data) .binary
  | buffer (data : List UInt8) : Inhabits (.buffer data) .binary
  | array {items : List Value} {element : DataType}
      (inhabited : ∀ item ∈ items, Inhabits item element) :
      Inhabits (.array items) (.array element)
  | object {entries : Entries} {fields : List (String × DataType)} {isOpen : Bool}
      (present : ∀ field ∈ fields, (entries.find? (.text field.1)).isSome) (inhabited :
        ∀ field ∈ fields, ∀ value, entries.find? (.text field.1) = some value →
          Inhabits value field.2)
      (declared :
        isOpen = false → ∀ entry ∈ entries, ∃ field ∈ fields, entry.1 = .text field.1) :
      Inhabits (.record entries) (.object fields isOpen)
  | function (callee : Function) (parameters : Nat) (result : DataType) :
      Inhabits (.function callee) (.function parameters result)
  | union {value : Value} {option : DataType} {options : List DataType} (member : option ∈ options)
      (inhabited : Inhabits value option) :
      Inhabits value (.union options)

namespace DataType

/-! ## Unions -/

mutual

theorem eq_of_same : ∀ {left right : DataType}, same left right → left = right
  | .any, right, areSame | .text, right, areSame | .number, right, areSame
  | .boolean, right, areSame | .null, right, areSame | .binary, right, areSame => by
    cases right <;> simp_all [same]
  | .array element, right, areSame => by
    cases right <;> simp only [same, Bool.false_eq_true] at areSame
    rw [eq_of_same areSame]
  | .object fields isOpen, right, areSame => by
    cases right <;>
      simp only [same, Bool.false_eq_true, Bool.and_eq_true, beq_iff_eq] at areSame
    rw [eq_of_sameFields areSame.1, areSame.2]
  | .function params result, right, areSame => by
    cases right <;>
      simp only [same, Bool.false_eq_true, Bool.and_eq_true, beq_iff_eq] at areSame
    rw [areSame.1, eq_of_same areSame.2]
  | .union options, right, areSame => by
    cases right <;> simp only [same, Bool.false_eq_true] at areSame
    rw [eq_of_sameAll areSame]

theorem eq_of_sameAll : ∀ {left right : List DataType}, sameAll left right → left = right
  | [], right, areSame => by
    cases right <;> simp_all [sameAll]
  | type :: rest, right, areSame => by
    cases right <;> simp only [sameAll, Bool.false_eq_true, Bool.and_eq_true] at areSame
    rw [eq_of_same areSame.1, eq_of_sameAll areSame.2]

theorem eq_of_sameFields : ∀ {left right : List (String × DataType)},
      sameFields left right → left = right
  | [], right, areSame => by
    cases right <;> simp_all [sameFields]
  | (name, type) :: rest, right, areSame => by
    cases right <;>
      simp only [sameFields, Bool.false_eq_true, Bool.and_eq_true, beq_iff_eq] at areSame
    obtain ⟨⟨sameName, sameType⟩, sameRest⟩ := areSame
    rw [sameName, eq_of_same sameType, eq_of_sameFields sameRest]

end

mutual

theorem same_self : ∀ type : DataType, same type type
  | .any | .text | .number | .boolean | .null | .binary => rfl
  | .array element => same_self element
  | .object fields isOpen => by simp [same, sameFields_self fields]
  | .function _ result => by simp [same, same_self result]
  | .union options => sameAll_self options
termination_by structural type => type

theorem sameAll_self : ∀ types : List DataType, sameAll types types
  | [] => rfl
  | type :: rest => by simp [sameAll, same_self type, sameAll_self rest]
termination_by structural types => types

theorem sameFields_self : ∀ fields : List (String × DataType), sameFields fields fields
  | [] => rfl
  | (name, type) :: rest => by simp [sameFields, same_self type, sameFields_self rest]
termination_by structural fields => fields

end

instance : LawfulBEq DataType where
  eq_of_beq := eq_of_same
  rfl := same_self _

theorem once_concat (types : List DataType) (type : DataType) : once (types ++ [type]) =
      if type ∈ once types then once types else once types ++ [type] := by
  simp [once, foldl_append]

@[simp] theorem mem_once : type ∈ once types ↔ type ∈ types := by
  induction types using reverseRecOn with
  | nil => rfl
  | append_singleton =>
    rw [once_concat]
    split <;> grind

theorem nodup_once (types : List DataType) : (once types).Nodup := by
  induction types using reverseRecOn with
  | nil => exact nodup_nil
  | append_singleton _ last ih =>
    rw [once_concat]
    split
    · exact ih
    · rename_i isNew
      exact ih.append (nodup_singleton last) (by simpa using isNew)

theorem exists_options (inhabited : value.Inhabits type) :
    ∃ option ∈ type.options, value.Inhabits option := by
  cases inhabited with
  | union mem inhabited => exact ⟨_, mem, inhabited⟩
  | _ => exact ⟨_, mem_singleton_self _, by constructor <;> assumption⟩

theorem inhabits_unionOf (mem : type ∈ types) (inhabited : value.Inhabits type) :
    value.Inhabits (unionOf types) := by
  obtain ⟨_, isOption, optionInhabited⟩ := exists_options inhabited
  have inOnce := mem_once.mpr (mem_flatMap.mpr ⟨type, mem, isOption⟩)
  unfold unionOf
  split
  · exact .any value
  · rename_i only isOnly
    rw [isOnly, mem_singleton] at inOnce
    exact inOnce ▸ optionInhabited
  · split
    · exact .any value
    · exact .union inOnce optionInhabited

theorem inhabits_unionFrom (mem : type ∈ first :: rest) (inhabited : value.Inhabits type) :
    value.Inhabits (unionFrom first rest) := by
  induction rest generalizing first type with
  | nil =>
    rw [mem_singleton] at mem
    exact mem ▸ inhabited
  | cons _ _ ih =>
    rcases mem_cons.mp mem with rfl | inRest
    · exact ih mem_cons_self (inhabits_unionOf mem_cons_self inhabited)
    · rcases mem_cons.mp inRest with rfl | inOthers
      · exact ih mem_cons_self (inhabits_unionOf (.tail _ (.head _)) inhabited)
      · exact ih (.tail _ inOthers) inhabited

/-! ## Properties -/

theorem properties_eq_map (name : String) (types : List DataType) :
    properties name types = types.map (property name) := by
  induction types with
  | nil => rfl
  | cons _ _ ih => rw [properties, ih, map_cons]

/-- A value of a type is no XML list unless the type says nothing about it. -/
theorem inhabits_firstElement (inhabited : value.Inhabits type) :
    value.firstElement.Inhabits type := by
  induction inhabited with
  | any => exact .any _
  | union mem _ ih => exact .union mem ih
  | _ => constructor <;> assumption

/-- What is found under a name in an object is of the type its fields promise. -/
theorem inhabits_entry {entries : Entries} {isOpen : Bool}
    (inhabited : (Value.record entries).Inhabits (.object fields isOpen)) (name : String) :
    (Value.entry entries name).Inhabits (property name (.object fields isOpen)) := by
  cases inhabited with
  | object present inhabited declared =>
    simp only [property, Value.entry]
    cases isField : fields.lookup name with
    | some type =>
      have mem : (name, type) ∈ fields := by
        obtain ⟨_, _, rfl, _⟩ := lookup_eq_some_iff.mp isField
        simp
      obtain ⟨value, found⟩ := Option.isSome_iff_exists.mp (present _ mem)
      rw [found]
      exact inhabited _ mem value found
    | none =>
      cases isOpen with
      | true => exact .any _
      | false =>
        cases found : entries.find? (.text name) with
        | none => exact .null
        | some =>
          obtain ⟨field, mem, sameKey⟩ := declared rfl _ (mem_of_lookup found)
          obtain rfl : name = field.1 := Key.text.inj sameKey
          have differs := lookup_eq_none_iff.mp isField field mem
          simp at differs

theorem inhabits_property {value : Value} (inhabited : value.Inhabits type)
    (picked : Eval.property value (.key name) nullSafe = .ok found) :
    found.Inhabits (property name type) := by
  induction inhabited with
  | object present inhabited declared =>
    obtain rfl : Value.firstElement _ = found := Except.ok.inj picked
    exact inhabits_firstElement (inhabits_entry (.object present inhabited declared) name)
  | union mem _ ih =>
    rw [property, properties_eq_map]
    exact inhabits_unionOf (mem_map_of_mem mem) (ih picked)
  | _ => exact .any found

/-! ## Sums and concatenations -/

theorem isAll_of_areAll (all : areAll holds types) (mem : type ∈ types) :
    type.isAll holds := by
  induction types with
  | nil => simp at mem
  | cons _ _ ih =>
    rw [areAll, Bool.and_eq_true] at all
    rcases mem_cons.mp mem with rfl | inRest
    · exact all.1
    · exact ih all.2 inRest

/-- Where all values of a type are of one sort, each of them is of a type of that sort. -/
theorem exists_of_isAll (inhabited : value.Inhabits type) (all : type.isAll holds) :
    ∃ sort, holds sort ∧ value.Inhabits sort := by
  induction inhabited with
  | union mem _ ih =>
    exact ih (isAll_of_areAll all mem)
  | _ => exact ⟨_, all, by constructor <;> assumption⟩

theorem exists_text (inhabited : value.Inhabits type) (isText : type.isText) :
    ∃ written, value = .text written := by
  obtain ⟨_, isSort, sortInhabited⟩ := exists_of_isAll inhabited isText
  obtain rfl := eq_of_same isSort
  cases sortInhabited with
  | text written => exact ⟨written, rfl⟩

theorem exists_number (inhabited : value.Inhabits type) (isNumber : type.isNumber) :
    ∃ number, value.number? = some number := by
  obtain ⟨_, isSort, sortInhabited⟩ := exists_of_isAll inhabited isNumber
  obtain rfl := eq_of_same isSort
  cases sortInhabited with
  | int number => exact ⟨.int number, rfl⟩
  | float number => exact ⟨.float number, rfl⟩

theorem inhabits_ofNumber (number : Number) : (Value.ofNumber number).Inhabits .number := by
  cases number with
  | int value => exact .int value
  | float value => exact .float value

/-- A concatenation is of the type inferred from the types of its operands. -/
theorem inhabits_concatenation (leftInhabited : left.Inhabits leftType)
    (rightInhabited : right.Inhabits rightType) (joined : Core.concat left right = .ok found) :
    found.Inhabits (concatenation leftType rightType) := by
  unfold concatenation
  split
  · rename_i areTexts
    rw [Bool.and_eq_true] at areTexts
    obtain ⟨leftText, rfl⟩ := exists_text leftInhabited areTexts.1
    obtain ⟨rightText, rfl⟩ := exists_text rightInhabited areTexts.2
    cases joined
    exact .text (leftText ++ rightText)
  · split
    · cases leftInhabited with
      | array leftItems =>
        cases rightInhabited with
        | array rightItems =>
          cases joined
          refine .array fun item mem => ?_
          rcases mem_append.mp mem with inLeft | inRight
          · exact inhabits_unionOf mem_cons_self (leftItems item inLeft)
          · exact inhabits_unionOf (.tail _ (.head _)) (rightItems item inRight)
    · exact .any _

/-- A sum is of the type inferred from the types of its operands, unless both are arrays. -/
theorem inhabits_sum (leftInhabited : left.Inhabits leftType)
    (rightInhabited : right.Inhabits rightType) (notArrays : ¬ ∃ leftElement rightElement,
      leftType = .array leftElement ∧ rightType = .array rightElement)
    (added : Core.plus left right place = .ok found) :
    found.Inhabits (sum leftType rightType) := by
  unfold sum
  split
  · rename_i areNumbers
    rw [Bool.and_eq_true] at areNumbers
    obtain ⟨first, isFirst⟩ := exists_number leftInhabited areNumbers.1
    obtain ⟨second, isSecond⟩ := exists_number rightInhabited areNumbers.2
    simp only [Core.plus, isFirst, isSecond] at added
    cases sum : first.add second with
    | error => simp [sum, bind, Except.bind] at added
    | ok number =>
      obtain rfl : Value.ofNumber number = found := by
        simpa [sum, bind, Except.bind, pure, Except.pure] using added
      exact inhabits_ofNumber number
  · unfold concatenation
    split
    · rename_i areTexts
      rw [Bool.and_eq_true] at areTexts
      obtain ⟨_, rfl⟩ := exists_text leftInhabited areTexts.1
      obtain ⟨_, rfl⟩ := exists_text rightInhabited areTexts.2
      -- Texts are concatenated, never added.
      cases added
    · split
      · exact absurd ⟨_, _, rfl, rfl⟩ notArrays
      · exact .any found

/-! ## Objects -/

/-- A field that is there keeps its place, and a new one goes to the end. -/
theorem map_fst_addField (fields : List (String × DataType)) (name : String) (type : DataType) :
    (addField fields name type).map fst =
      if name ∈ fields.map fst then fields.map fst
      else fields.map fst ++ [name] :=
  keys_setPair fields name _

theorem nodup_addField (once : (fields.map fst).Nodup) (name : String) (type : DataType) :
    ((addField fields name type).map fst).Nodup :=
  nodup_keys_setPair once name _

/-- The field that is added has the new type beside the one it had. -/
theorem mem_addField (once : (fields.map fst).Nodup)
    (mem : field ∈ addField fields name type) : (field.1 = name ∧ (field.2 = type ∨
      ∃ present, (name, present) ∈ fields ∧ field.2 = unionOf [present, type])) ∨
      field ∈ fields ∧ field.1 ≠ name := by
  rcases mem_setPair_of_nodup once mem with rfl | isOld
  · refine .inl ⟨rfl, ?_⟩
    cases isField : fields.lookup name with
    | some present => exact .inr ⟨present, mem_of_lookup isField, rfl⟩
    | none => exact .inl rfl
  · exact .inr isOld

/-- The entries have the fields and no others. -/
structure Fills (entries : Entries) (fields : List (String × DataType)) : Prop where
  once : (fields.map Prod.fst).Nodup
  present :
    ∀ field ∈ fields, ∃ value,
      entries.find? (.text field.1) = some value ∧ value.Inhabits field.2
  declared : ∀ entry ∈ entries, ∃ name ∈ fields.map Prod.fst, entry.1 = .text name

namespace Fills

variable {entries : Entries} {fields : List (String × DataType)}

theorem nil : Fills [] [] :=
  ⟨nodup_nil, by simp, by simp⟩

/-- Entries with all fields of a type are an object of that type, open or not. -/
theorem inhabits (fills : Fills entries fields) (isOpen : Bool) :
    (Value.record entries).Inhabits (ofFields fields isOpen) := by
  refine .object ?_ ?_ ?_
  · intro field mem
    obtain ⟨value, found, _⟩ := fills.present field (mem_mergeSort.mp mem)
    simp [found]
  · intro field mem value found
    obtain ⟨present, isPresent, inhabited⟩ := fills.present field (mem_mergeSort.mp mem)
    obtain rfl : present = value := Option.some.inj (isPresent.symm.trans found)
    exact inhabited
  · intro _ entry isEntry
    obtain ⟨_, isName, sameKey⟩ := fills.declared entry isEntry
    obtain ⟨field, mem, rfl⟩ := mem_map.mp isName
    exact ⟨field, mem_mergeSort.mpr mem, sameKey⟩

/-- Setting a key gives its field the type of the new value beside the types it had. -/
theorem insert (fills : Fills entries fields) (inhabited : value.Inhabits type) :
    Fills (entries.insert (.text name) value) (addField fields name type) := by
  refine ⟨nodup_addField fills.once name type, fun field mem => ?_, fun entry mem => ?_⟩
  · rcases mem_addField fills.once mem with ⟨isName, isType⟩ | ⟨isOld, differs⟩
    · refine ⟨value, by rw [Entries.find?_insert, isName, if_pos rfl], ?_⟩
      rcases isType with isNew | ⟨present, _, isUnion⟩
      · rw [isNew]
        exact inhabited
      · rw [isUnion]
        exact inhabits_unionOf (.tail _ (.head _)) inhabited
    · obtain ⟨present, isPresent, presentInhabited⟩ := fills.present field isOld
      refine ⟨present, ?_, presentInhabited⟩
      rw [Entries.find?_insert, if_neg fun sameKey => differs (Key.text.inj sameKey), isPresent]
  · rw [map_fst_addField]
    have isAdded : name ∈ if name ∈ fields.map fst then fields.map fst
        else fields.map fst ++ [name] := by
      split <;> simp_all
    rcases mem_setPair mem with rfl | isOld
    · exact ⟨name, isAdded, rfl⟩
    · obtain ⟨other, isOther, isKey⟩ := fills.declared entry isOld
      refine ⟨other, ?_, isKey⟩
      split
      · exact isOther
      · exact mem_append_left _ isOther

end Fills

end DataType

end Weave
