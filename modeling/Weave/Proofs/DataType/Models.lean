import Weave.DataType.Schema
import Weave.Proofs.DataType.Semilattice
import Weave.Proofs.Outcome.Leaves

namespace Weave

open List

/-!
# Models of types of objects

The schema of a type is made in one walk over the type, which makes a model for every type of
objects that has none yet.  Whatever models there are before, the walk adds one for each new type
of objects in the order in which it leaves them.
-/

namespace DataType

variable {type : DataType} {types options : List DataType} {fields : List (String × DataType)}
  {isOpen : Bool} {schema : Schema} {models before middle after : Models}

/-! ## Types in a type -/

mutual

/-- The types of objects in a type, inner ones first.  What functions leave is not looked at. -/
def objects : DataType → List DataType
  | .array element => objects element
  | .object fields isOpen => objectsInFields fields ++ [.object fields isOpen]
  | .union options => objectsInAll options
  | _ => []

/-- The types of objects in types. -/
def objectsInAll : List DataType → List DataType
  | [] => []
  | type :: rest => objects type ++ objectsInAll rest

/-- The types of objects in the types of fields. -/
def objectsInFields : List (String × DataType) → List DataType
  | [] => []
  | (_, type) :: rest => objects type ++ objectsInFields rest

end

mutual

theorem sizeOf_le_of_mem_objects :
    ∀ type : DataType, ∀ inner ∈ objects type, sizeOf inner ≤ sizeOf type
  | .array element => fun inner mem => by
    have inElement := sizeOf_le_of_mem_objects element inner mem
    simp only [array.sizeOf_spec]
    omega
  | .object fields isOpen => fun inner mem => by
    rcases mem_append.mp mem with inFields | isSelf
    · have isSmaller := sizeOf_lt_of_mem_objectsInFields fields inner inFields
      simp only [object.sizeOf_spec]
      omega
    · rw [mem_singleton.mp isSelf]
  | .union options => fun inner mem => by
    have isSmaller := sizeOf_lt_of_mem_objectsInAll options inner mem
    simp only [union.sizeOf_spec]
    omega
  | .any | .text | .number | .boolean | .null | .binary | .function _ _ => nofun
termination_by structural type => type

theorem sizeOf_lt_of_mem_objectsInAll :
    ∀ types : List DataType, ∀ inner ∈ objectsInAll types, sizeOf inner < sizeOf types
  | [] => nofun
  | type :: rest => fun inner mem => by
    simp only [cons.sizeOf_spec]
    rcases mem_append.mp mem with inFirst | inRest
    · have isSmaller := sizeOf_le_of_mem_objects type inner inFirst
      omega
    · have isSmaller := sizeOf_lt_of_mem_objectsInAll rest inner inRest
      omega
termination_by structural types => types

theorem sizeOf_lt_of_mem_objectsInFields :
    ∀ fields : List (String × DataType), ∀ inner ∈ objectsInFields fields,
      sizeOf inner < sizeOf fields
  | [] => nofun
  | (name, type) :: rest => fun inner mem => by
    simp only [cons.sizeOf_spec, Prod.mk.sizeOf_spec]
    rcases mem_append.mp mem with inFirst | inRest
    · have isSmaller := sizeOf_le_of_mem_objects type inner inFirst
      omega
    · have isSmaller := sizeOf_lt_of_mem_objectsInFields rest inner inRest
      omega
termination_by structural fields => fields

end

/-- The type is null or a union with null among its options, which may be unions. -/
inductive AdmitsNull : DataType → Prop
  | null : AdmitsNull .null
  | union {option : DataType} {options : List DataType} (member : option ∈ options)
      (admits : AdmitsNull option) :
      AdmitsNull (.union options)

/-- Schemas can be made of the type: no field has a reserved name and every union has options. -/
inductive IsExportable : DataType → Prop
  | any : IsExportable .any
  | text : IsExportable .text
  | number : IsExportable .number
  | boolean : IsExportable .boolean
  | null : IsExportable .null
  | binary : IsExportable .binary
  | array {element : DataType} (inner : IsExportable element) : IsExportable (.array element)
  | object {fields : List (String × DataType)} (areFree : ∀ field ∈ fields, field.1 ∉ reservedNames)
      (inner : ∀ field ∈ fields, IsExportable field.2) (isOpen : Bool) :
      IsExportable (.object fields isOpen)
  | function (parameters : Nat) (result : DataType) : IsExportable (.function parameters result)
  | union {options : List DataType} (notEmpty : options ≠ [])
      (inner : ∀ option ∈ options, IsExportable option) :
      IsExportable (.union options)

theorem someAllowsNull_eq_any (options : List DataType) :
    someAllowsNull options = options.any allowsNull := by
  induction options with
  | nil => rfl
  | cons _ _ ih => rw [someAllowsNull, ih, any_cons]

theorem allowsNull_iff (isExportable : type.IsExportable) :
    type.allowsNull ↔ type.AdmitsNull := by
  induction isExportable with
  | null => exact iff_of_true rfl .null
  | union _ _ ih =>
    rw [allowsNull, someAllowsNull_eq_any, any_eq_true]
    constructor
    · rintro ⟨option, mem, allows⟩
      exact .union mem ((ih option mem).mp allows)
    · intro admits
      cases admits with
      | union mem admits => exact ⟨_, mem, (ih _ mem).mpr admits⟩
  | _ => exact iff_of_false (by simp [allowsNull]) nofun

/-! ## Schemas -/

/-- The schema stands for the type, where types of objects have the given models. -/
inductive Describes (models : Models) : DataType → Schema → Prop
  | any : Describes models .any .any
  | text : Describes models .text .text
  | number : Describes models .number .number
  | boolean : Describes models .boolean .boolean
  | null : Describes models .null .null
  | binary : Describes models .binary .binary
  | array {schema : Schema} (inner : Describes models element schema) :
      Describes models (.array element) (.list schema)
  | object {fields : List (String × DataType)} {isOpen : Bool}
      (member : (.object fields isOpen, model) ∈ models) :
      Describes models (.object fields isOpen) model
  | function (parameters : Nat) (result : DataType) :
      Describes models (.function parameters result) .any
  | union {pairs : List (DataType × Schema)} {schema : Schema}
      (inner : ∀ pair ∈ pairs, Describes models pair.1 pair.2)
      (isUnion : Schema.nullLast (pairs.map Prod.snd) = .ok schema) :
      Describes models (.union (pairs.map Prod.fst)) schema

theorem Describes.mono (describes : Describes before type schema) (areKept : before ⊆ after) :
    Describes after type schema := by
  induction describes with
  | array _ ih => exact .array ih
  | object mem => exact .object (areKept mem)
  | union _ isUnion ih => exact .union ih isUnion
  | _ => constructor

/-- What a model says about a field: its name, its schema, and whether it is required. -/
structure IsFieldOf (models : Models) (field : String × DataType)
    (found : String × Schema × Bool) : Prop where
  name : found.1 = field.1
  required : found.2.2 = false ↔ field.2.AdmitsNull
  schema : ∃ plain, Describes models field.2 plain ∧ fieldSchema field.2 plain = .ok found.2.1

/-- The model is the one of a type of objects, with the schemas of its fields. -/
def IsModelOf (models : Models) (index : Nat) (entry : DataType × Schema) : Prop :=
  ∃ name fields isOpen schemas,
    entry = (.object fields isOpen, .model index name isOpen schemas) ∧
      Forall₂ (IsFieldOf models) fields schemas

/-- The models are those that walks over types make. -/
structure AreMade (models : Models) : Prop where
  distinct : (models.map Prod.fst).Nodup
  numbered : ∀ index entry, models[index]? = some entry → IsModelOf models index entry
  closed : ∀ entry ∈ models, objects entry.1 ⊆ models.map Prod.fst

/-- The models after a walk are those before it and one for each type that had none. -/
structure Adds (before : Models) (found : List DataType) (after : Models) : Prop where
  areMade : AreMade after
  areKept : before ⊆ after
  types : after.map Prod.fst = once (before.map Prod.fst ++ found)

namespace Adds

theorem refl (areMade : AreMade models) : Adds models [] models :=
  ⟨areMade, Subset.refl models, by rw [append_nil, once_of_nodup areMade.distinct]⟩

theorem trans (first : Adds before found middle) (second : Adds middle others after) :
    Adds before (found ++ others) after := by
  refine ⟨second.areMade, List.Subset.trans first.areKept second.areKept, ?_⟩
  rw [second.types, first.types, once_once_append, append_assoc]

/-- A type of objects that has a model gets no other. -/
theorem of_found (areMade : AreMade models) (mem : entry ∈ models) :
    Adds models (objects entry.1) models := by
  refine ⟨areMade, Subset.refl models, ?_⟩
  rw [once_append_of_subset (areMade.closed entry mem), once_of_nodup areMade.distinct]

end Adds

theorem IsFieldOf.mono (isField : IsFieldOf before field found) (areKept : before ⊆ after) :
    IsFieldOf after field found := by
  obtain ⟨plain, describes, isSchema⟩ := isField.schema
  exact ⟨isField.name, isField.required, plain, describes.mono areKept, isSchema⟩

/-- A new type of objects gets a model behind those of the types in its fields. -/
theorem Adds.object (adds : Adds before (objectsInFields fields) middle)
    (isNew : .object fields isOpen ∉ before.map Prod.fst) (name : String)
    {schemas : List (String × Schema × Bool)}
    (areFields : Forall₂ (IsFieldOf middle) fields schemas) :
    Adds before (objects (.object fields isOpen))
      (middle ++ [(.object fields isOpen, .model middle.length name isOpen schemas)]) := by
  have areKept : middle ⊆
      middle ++ [(.object fields isOpen, .model middle.length name isOpen schemas)] :=
    subset_append_left _ _
  have notMade : .object fields isOpen ∉ middle.map Prod.fst := by
    rw [adds.types, mem_once, mem_append, not_or]
    refine ⟨isNew, fun inFields => ?_⟩
    have isSmaller := sizeOf_lt_of_mem_objectsInFields fields _ inFields
    simp only [object.sizeOf_spec] at isSmaller
    omega
  refine ⟨⟨?_, fun index entry isEntry => ?_, fun entry mem => ?_⟩,
    List.Subset.trans adds.areKept areKept, ?_⟩
  · rw [map_append]
    exact adds.areMade.distinct.append (nodup_singleton _) (by simpa using notMade)
  · have made : IsModelOf middle index entry := by
      rw [getElem?_append] at isEntry
      split at isEntry
      · exact adds.areMade.numbered index entry isEntry
      · rw [getElem?_singleton] at isEntry
        split at isEntry
        · obtain rfl := Option.some.inj isEntry
          obtain rfl : index = middle.length := by omega
          exact ⟨name, fields, isOpen, schemas, rfl, areFields⟩
        · cases isEntry
    obtain ⟨modelName, others, otherOpen, otherSchemas, isModel, areOthers⟩ := made
    exact ⟨modelName, others, otherOpen, otherSchemas, isModel,
      areOthers.imp fun _ _ isField => isField.mono areKept⟩
  · rw [map_append]
    rcases mem_append.mp mem with isOld | isSelf
    · exact subset_append_of_subset_left _ (adds.areMade.closed entry isOld)
    · obtain rfl := mem_singleton.mp isSelf
      have inFields : objectsInFields fields ⊆ middle.map Prod.fst := by
        intro inner isInner
        rw [adds.types, mem_once]
        exact mem_append_right _ isInner
      exact append_subset.mpr ⟨subset_append_of_subset_left _ inFields, by simp⟩
  · rw [map_append, adds.types, objects, ← append_assoc, once_concat, if_neg]
    · rfl
    · rw [← adds.types]
      exact notMade

/-! ## Walks -/

/-- The walk over the type ends with a schema for it and a model for each type of objects in it. -/
def IsExported (type : DataType) : Prop :=
  ∀ name models, AreMade models →
    ∃ schema after, schemaOf name type models = .ok (schema, after) ∧
      Adds models (objects type) after ∧ Describes after type schema

theorem exists_unionOf (notEmpty : schemas ≠ []) :
    ∃ schema, Schema.unionOf schemas = .ok schema := by
  cases schemas with
  | nil => exact absurd rfl notEmpty
  | cons =>
    unfold Schema.unionOf
    dsimp only
    split
    · exact ⟨_, rfl⟩
    · exact ⟨_, rfl⟩

theorem exists_nullLast (notEmpty : schemas ≠ []) :
    ∃ schema, Schema.nullLast schemas = .ok schema := by
  unfold Schema.nullLast
  split
  · split
    · exact ⟨_, rfl⟩
    · rename_i isSome
      obtain ⟨union, isUnion⟩ := exists_unionOf isSome
      obtain ⟨schema, isSchema⟩ := exists_unionOf (cons_ne_nil union [.null])
      exact ⟨schema, except_bind_eq_ok.mpr ⟨union, isUnion, isSchema⟩⟩
  · exact exists_unionOf notEmpty

theorem exists_schemasOf (each : ∀ type ∈ types, type.IsExported) (name : String)
    (areMade : AreMade models) :
    ∃ (pairs : List (DataType × Schema)) (after : Models), pairs.map Prod.fst = types ∧
      schemasOf name types models = .ok (pairs.map Prod.snd, after) ∧
      Adds models (objectsInAll types) after ∧ ∀ pair ∈ pairs, Describes after pair.1 pair.2 := by
  induction types generalizing models with
  | nil => exact ⟨[], models, rfl, rfl, .refl areMade, by simp⟩
  | cons type _ ih =>
    rw [forall_mem_cons] at each
    obtain ⟨schema, _, isSchema, adds, describes⟩ := each.1 name models areMade
    obtain ⟨pairs, after, rfl, areSchemas, addOthers, describeOthers⟩ := ih each.2 adds.areMade
    refine ⟨(type, schema) :: pairs, after, rfl, ?_, adds.trans addOthers,
      forall_mem_cons.mpr ⟨describes.mono addOthers.areKept, describeOthers⟩⟩
    rw [schemasOf, isSchema]
    exact congrArg (Except.map _) areSchemas

theorem exists_fieldSchema (type : DataType) (schema : Schema) :
    ∃ found, fieldSchema type schema = .ok found := by
  unfold fieldSchema
  split
  · exact exists_unionOf (cons_ne_nil schema [.null])
  · exact ⟨schema, rfl⟩

theorem exists_fieldSchemas (areExportable : ∀ field ∈ fields, field.2.IsExportable)
    (each : ∀ field ∈ fields, field.2.IsExported) (name : String) (areMade : AreMade models) :
    ∃ (schemas : List (String × Schema × Bool)) (after : Models),
      fieldSchemas name fields models = .ok (schemas, after) ∧
        Adds models (objectsInFields fields) after ∧
        Forall₂ (IsFieldOf after) fields schemas := by
  induction fields generalizing models with
  | nil => exact ⟨[], models, rfl, .refl areMade, .nil⟩
  | cons field _ ih =>
    rw [forall_mem_cons] at areExportable each
    obtain ⟨schema, middle, isSchema, adds, describes⟩ :=
      each.1 (fieldModelName name field.1) models areMade
    obtain ⟨found, isFound⟩ := exists_fieldSchema field.2 schema
    have isField : IsFieldOf middle field (field.1, found, !field.2.allowsNull) :=
      ⟨rfl, by rw [← allowsNull_iff areExportable.1, Bool.not_eq_false'], schema, describes,
        isFound⟩
    obtain ⟨schemas, after, areSchemas, addOthers, areFields⟩ :=
      ih areExportable.2 each.2 adds.areMade
    refine ⟨(field.1, found, !field.2.allowsNull) :: schemas, after, ?_, adds.trans addOthers,
      .cons (isField.mono addOthers.areKept) areFields⟩
    rw [fieldSchemas, isSchema]
    refine except_bind_eq_ok.mpr ⟨(schema, middle), rfl, except_bind_eq_ok.mpr ⟨found, isFound, ?_⟩⟩
    exact congrArg (Except.map _) areSchemas

theorem IsExportable.isExported (isExportable : type.IsExportable) : type.IsExported := by
  induction isExportable with
  | array _ ih =>
    intro name models areMade
    obtain ⟨schema, after, isSchema, adds, describes⟩ := ih (name ++ "Item") models areMade
    exact ⟨.list schema, after, except_bind_eq_ok.mpr ⟨_, isSchema, rfl⟩, adds, .array describes⟩
  | @object fields areFree areExportable isOpen ih =>
    intro name models areMade
    cases isFound : models.find? fun entry => entry.1 == .object fields isOpen with
    | some entry =>
      have mem := mem_of_find?_eq_some isFound
      have isType : entry.1 = .object fields isOpen := by simpa using find?_some isFound
      obtain ⟨_, model⟩ := entry
      obtain rfl : _ = DataType.object fields isOpen := isType
      exact ⟨model, models, by rw [schemaOf, isFound], .of_found areMade mem, .object mem⟩
    | none =>
      obtain ⟨_, _, areSchemas, adds, areFields⟩ :=
        exists_fieldSchemas areExportable ih name areMade
      have isNew : .object fields isOpen ∉ models.map Prod.fst := by
        intro isOld
        obtain ⟨entry, mem, isType⟩ := mem_map.mp isOld
        simpa [isType] using find?_eq_none.mp isFound entry mem
      have noneReserved : fields.any (reservedNames.contains ·.1) = false := by
        simpa using areFree
      refine ⟨_, _, ?_, adds.object isNew name areFields,
        .object (mem_append_right _ (mem_singleton_self _))⟩
      rw [schemaOf, isFound]
      refine except_bind_eq_ok.mpr ⟨_, areSchemas, ?_⟩
      rw [noneReserved]
      rfl
  | @union _ notEmpty _ ih =>
    intro name models areMade
    obtain ⟨pairs, after, rfl, areSchemas, adds, describe⟩ := exists_schemasOf ih name areMade
    have isSome : pairs.map Prod.snd ≠ [] := by simpa using notEmpty
    obtain ⟨schema, isSchema⟩ := exists_nullLast isSome
    refine ⟨schema, after, ?_, adds, .union describe isSchema⟩
    exact except_bind_eq_ok.mpr ⟨_, areSchemas, except_bind_eq_ok.mpr ⟨schema, isSchema, rfl⟩⟩
  | _ => exact fun _ models areMade => ⟨_, models, rfl, .refl areMade, by constructor⟩

/-- Each type of objects gets one model.  The schema of a type without reserved field names and
empty unions is made with one model for each type of objects in it, wherever the type stands, and
the models are numbered.  A field is not required just if its type admits null. -/
theorem one_model_each (name : String) (type : DataType) (isExportable : type.IsExportable) :
    ∃ schema models, schemaOf name type [] = .ok (schema, models) ∧
      toSchema name type = .ok schema ∧
      models.map Prod.fst = once (objects type) ∧
      (models.map Prod.fst).Nodup ∧
      (∀ index entry, models[index]? = some entry → IsModelOf models index entry) ∧
      Describes models type schema := by
  have noModels : AreMade [] := ⟨nodup_nil, by simp, by simp⟩
  obtain ⟨schema, models, isSchema, adds, describes⟩ := isExportable.isExported name [] noModels
  refine ⟨schema, models, isSchema, ?_, adds.types, adds.areMade.distinct, adds.areMade.numbered,
    describes⟩
  exact except_bind_eq_ok.mpr ⟨_, isSchema, rfl⟩

/-- Notes that hold notes of another type, which stands in three places. -/
def noteType : DataType :=
  .object [("first", .array (.object [("text", .text)] false)),
    ("last", .union [.object [("text", .text)] false, .null]),
    ("other", .function 1 (.object [] true))] false

theorem one_model_each_note : noteType.IsExportable ∧
      ∃ schema models, schemaOf "Note" noteType [] = .ok (schema, models) ∧
        models.map Prod.fst = [.object [("text", .text)] false, noteType] := by
  have inner : IsExportable (.object [("text", .text)] false) :=
    .object (by simp [reservedNames]) (by simp [IsExportable.text]) false
  have isExportable : noteType.IsExportable := by
    refine .object (by simp [reservedNames]) ?_ false
    simp only [forall_mem_cons]
    exact ⟨.array inner, .union (by simp) (by simp [inner, IsExportable.null]), .function _ _,
      by simp⟩
  obtain ⟨schema, models, isSchema, _, types, _⟩ := one_model_each "Note" noteType isExportable
  exact ⟨isExportable, schema, models, isSchema, types⟩

end DataType

end Weave
