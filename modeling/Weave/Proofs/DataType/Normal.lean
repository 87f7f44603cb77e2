import Weave.Proofs.DataType.Soundness
import Weave.Proofs.Value.Order

namespace Weave

open List

/-!
# Normal types

In a normal type every union has at least two options, none of them twice, a union again or the
type of all values, and the fields of every type of objects are in the order of their names, none
of them twice.  Every operation on types keeps them normal, and so does inference.
-/

variable {env : Environment} {type left right : DataType} {fields : List (String × DataType)}

namespace DataType

/-- A type is an option of a normal union. -/
def isOption : DataType → Bool
  | .any | .union _ => false
  | _ => true

/-- Unions are flat and hold every option once, and fields are sorted by name. -/
inductive IsNormal : DataType → Prop
  | any : IsNormal .any
  | text : IsNormal .text
  | number : IsNormal .number
  | boolean : IsNormal .boolean
  | null : IsNormal .null
  | binary : IsNormal .binary
  | array (normal : IsNormal element) :
      IsNormal (.array element)
  | object {fields : List (String × DataType)}
      (sorted : fields.Pairwise fun left right => left.1 < right.1)
      (normal : ∀ field ∈ fields, IsNormal field.2) (isOpen : Bool) :
      IsNormal (.object fields isOpen)
  | function (parameters : Nat) (normal : IsNormal result) :
      IsNormal (.function parameters result)
  | union {options : List DataType} (several : 2 ≤ options.length) (distinct : options.Nodup)
      (areOptions : ∀ option ∈ options, option.isOption = true)
      (normal : ∀ option ∈ options, IsNormal option) :
      IsNormal (.union options)

/-! ## Unions -/

/-- The types that a normal type is a union of are normal, and they are no unions. -/
theorem IsNormal.of_mem_options {type option : DataType} (normal : type.IsNormal)
    (isOption : option ∈ type.options) :
    option.IsNormal ∧ (option = .any ∨ option.isOption) := by
  cases normal with
  | union _ _ areOptions areNormal =>
    exact ⟨areNormal option isOption, .inr (areOptions option isOption)⟩
  | any =>
    obtain rfl := mem_singleton.mp isOption
    exact ⟨.any, .inl rfl⟩
  | _ =>
    obtain rfl := mem_singleton.mp isOption
    exact ⟨by constructor <;> assumption, .inr rfl⟩

/-- A union of normal types is normal, since normal types are flat already. -/
theorem isNormal_unionOf (areNormal : ∀ type ∈ types, type.IsNormal) :
    (unionOf types).IsNormal := by
  have optionsNormal :
      ∀ option ∈ once (types.flatMap options),
        option.IsNormal ∧ (option = .any ∨ option.isOption) := by
    intro option mem
    obtain ⟨type, isType, isOption⟩ := mem_flatMap.mp (mem_once.mp mem)
    exact (areNormal type isType).of_mem_options isOption
  unfold unionOf
  split
  · exact .any
  · rename_i only isOnly
    exact (optionsNormal only (isOnly ▸ mem_singleton_self only)).1
  · rename_i notEmpty notSingle
    split
    · exact .any
    · rename_i noAny
      refine .union ?_ (nodup_once _) (fun option mem => ?_) fun option mem =>
        (optionsNormal option mem).1
      · match once (types.flatMap options), notEmpty, notSingle with
        | [], notEmpty, _ => exact absurd rfl notEmpty
        | [only], _, notSingle => exact absurd rfl (notSingle only)
        | _ :: _ :: _, _, _ => exact Nat.le_add_left 2 _
      · rcases (optionsNormal option mem).2 with rfl | isOption
        · exact absurd (contains_iff_mem.mpr mem) noAny
        · exact isOption

theorem isNormal_union_pair (leftNormal : left.IsNormal) (rightNormal : right.IsNormal) :
    (unionOf [left, right]).IsNormal :=
  isNormal_unionOf (by simp [leftNormal, rightNormal])

theorem isNormal_unionFrom {first : DataType} (firstNormal : first.IsNormal)
    (restNormal : ∀ type ∈ rest, type.IsNormal) : (unionFrom first rest).IsNormal := by
  induction rest generalizing first with
  | nil => exact firstNormal
  | cons _ _ ih =>
    obtain ⟨secondNormal, othersNormal⟩ := forall_mem_cons.mp restNormal
    exact ih (isNormal_union_pair firstNormal secondNormal) othersNormal

/-! ## Objects -/

/-- Fields for a normal type of objects: every name once, and every type normal. -/
structure NormalFields (fields : List (String × DataType)) : Prop where
  once : (fields.map Prod.fst).Nodup
  normal : ∀ field ∈ fields, field.2.IsNormal

/-- Sorting fields with different names makes them strictly sorted. -/
theorem isNormal_ofFields (areNormal : NormalFields fields) (isOpen : Bool) :
    (ofFields fields isOpen).IsNormal := by
  have isPermutation := mergeSort_perm fields fun left right => orderTexts left.1 right.1 != .gt
  refine .object ?_ (fun field mem => ?_) isOpen
  · have ascending := pairwise_mergeSort_texts Prod.fst fields
    have different := pairwise_map.mp ((isPermutation.map Prod.fst).nodup_iff.mpr areNormal.once)
    exact (ascending.and different).imp fun ⟨isLess, differs⟩ => lt_of_le_of_ne isLess differs
  · exact areNormal.normal field (isPermutation.mem_iff.mp mem)

theorem NormalFields.addField (areNormal : NormalFields fields) (normal : type.IsNormal) :
    NormalFields (addField fields name type) := by
  refine ⟨nodup_addField areNormal.once name type, fun field mem => ?_⟩
  rcases mem_addField areNormal.once mem with ⟨_, isNew | ⟨present, isField, isUnion⟩⟩ | isOld
  · exact isNew ▸ normal
  · exact isUnion ▸ isNormal_union_pair (areNormal.normal _ isField) normal
  · exact areNormal.normal field isOld.1

theorem NormalFields.addFields (areNormal : NormalFields fields)
    (literalNormal : ∀ field ∈ literal, field.2.IsNormal) :
    NormalFields (addFields fields literal) := by
  induction literal generalizing fields with
  | nil => exact areNormal
  | cons field _ ih =>
    obtain ⟨name, _⟩ := field
    rw [forall_mem_cons] at literalNormal
    cases name with
    | some => exact ih (areNormal.addField literalNormal.1) literalNormal.2
    | none => exact ih areNormal literalNormal.2

/-! ## Parts and sums -/

theorem isNormal_property (normal : type.IsNormal) (name : String) :
    (property name type).IsNormal := by
  induction normal with
  | @object fields _ fieldsNormal isOpen =>
    rw [property]
    cases found : fields.lookup name with
    | some => exact fieldsNormal _ (mem_of_lookup found)
    | none => cases isOpen <;> constructor
  | @union _ _ _ _ _ ih =>
    rw [property, properties_eq_map]
    exact isNormal_unionOf (by simpa using ih)
  | _ => exact .any

theorem items_eq_map (isName : Bool) (types : List DataType) :
    items isName types = types.map (item isName) := by
  induction types with
  | nil => rfl
  | cons _ _ ih => rw [items, ih, map_cons]

theorem isNormal_item (normal : type.IsNormal) (isName : Bool) : (item isName type).IsNormal := by
  induction normal with
  | array elementNormal => exact elementNormal
  | object =>
    rw [item]
    split <;> constructor
  | @union _ _ _ _ _ ih =>
    rw [item, items_eq_map]
    exact isNormal_unionOf (by simpa using ih)
  | _ => exact .any

theorem isNormal_concatenation (leftNormal : left.IsNormal) (rightNormal : right.IsNormal) :
    (concatenation left right).IsNormal := by
  unfold concatenation
  split
  · exact .text
  · split
    · cases leftNormal with
      | array leftElement =>
        cases rightNormal with
        | array rightElement => exact .array (isNormal_union_pair leftElement rightElement)
    · exact .any

/-- A specification names no unions and no fields. -/
theorem isNormal_ofSpec : (spec : TypeSpec) → (ofSpec spec).IsNormal
  | .mk name [] => by
    unfold ofSpec
    split
    case h_9 areGenerics => cases areGenerics
    case h_10 => exact .object .nil (by simp) true
    all_goals constructor
  | .mk name (element :: rest) => by
    have elementNormal := isNormal_ofSpec element
    unfold ofSpec
    split
    case h_9 areGenerics =>
      obtain ⟨rfl, rfl⟩ := cons.inj areGenerics
      exact .array elementNormal
    case h_10 => exact .object .nil (by simp) true
    all_goals constructor

/-! ## Inference -/

/-- All that is known of names is normal. -/
structure Environment.IsNormal (environment : Environment) : Prop where
  payload : environment.payload.IsNormal
  vars : environment.vars.IsNormal
  bound : ∀ name type, environment.bound.lookup name = some type → type.IsNormal

namespace Environment.IsNormal

variable {env : Environment}

theorem lookup (normal : env.IsNormal) (name : String) : (env.lookup name).IsNormal := by
  unfold Environment.lookup
  split
  · exact normal.payload
  · split
    · exact normal.vars
    · cases found : env.bound.lookup name with
      | some type => exact normal.bound name type found
      | none => exact .any

theorem bind (normal : env.IsNormal) (name : String) (typeNormal : type.IsNormal) :
    (env.bind name type).IsNormal := by
  refine ⟨normal.payload, normal.vars, fun other found isFound => ?_⟩
  rw [Environment.bind, lookup_setPair] at isFound
  split at isFound
  · obtain rfl := Option.some.inj isFound
    exact typeNormal
  · exact normal.bound other found isFound

theorem callOf (normal : env.IsNormal) (name : String)
    (argumentsNormal : ∀ arg ∈ args, arg.IsNormal) : (callOf env name args).IsNormal := by
  unfold DataType.callOf
  split
  · simp only [forall_mem_cons] at argumentsNormal
    unfold sum
    split
    · exact .number
    · exact isNormal_concatenation argumentsNormal.1 argumentsNormal.2.1
  · simp only [forall_mem_cons] at argumentsNormal
    exact isNormal_concatenation argumentsNormal.1 argumentsNormal.2.1
  · exact .number
  · exact .number
  · exact .boolean
  · have calleeNormal := normal.lookup name
    split
    · rename_i params result isFunction
      rw [isFunction] at calleeNormal
      cases calleeNormal with
      | function _ resultNormal => exact resultNormal
    · exact .any

end Environment.IsNormal

mutual

theorem isNormal_infer (normal : env.IsNormal) : ∀ expr : Expr, (infer env expr).IsNormal
  | .text _ | .template _ => .text
  | .number _ => .number
  | .boolean _ => .boolean
  | .null => .null
  | .name word _ => normal.lookup word
  | .object fields =>
    have noFields : NormalFields [] := ⟨nodup_nil, by simp⟩
    isNormal_ofFields (noFields.addFields (isNormal_inferFields normal fields)) _
  | .list elements => by
    have elementsNormal := isNormal_inferAll normal elements
    rw [infer]
    split
    · exact .array .any
    · rename_i first rest areElements
      obtain ⟨firstNormal, restNormal⟩ := forall_mem_cons.mp (areElements ▸ elementsNormal)
      exact .array (isNormal_unionFrom firstNormal restNormal)
  | .property base selector _ => isNormal_property (isNormal_infer normal base) selector.text
  | .index base place => isNormal_item (isNormal_infer normal base) _
  | .call callee args => by
    have argumentsNormal := isNormal_inferAll normal args
    cases callee with
    | name word => exact normal.callOf word argumentsNormal
    | _ => exact .any
  | .orElse left right =>
    isNormal_union_pair (isNormal_infer normal left) (isNormal_infer normal right)
  | .conditional _ whenTrue whenFalse =>
    isNormal_union_pair (isNormal_infer normal whenTrue) (isNormal_infer normal whenFalse)
  | .matching _ cases => isNormal_unionFrom .null (isNormal_inferCases normal cases)
  | .lambda params _ => .function params.length .any
  | .coercion _ target _ => isNormal_ofSpec target
  | .placeholder _ _ => .any
termination_by structural expr => expr

theorem isNormal_inferAll (normal : env.IsNormal) :
    ∀ exprs : List Expr, ∀ type ∈ inferAll env exprs, type.IsNormal
  | [] => by simp [inferAll]
  | expr :: rest =>
    forall_mem_cons.mpr ⟨isNormal_infer normal expr, isNormal_inferAll normal rest⟩
termination_by structural exprs => exprs

theorem isNormal_inferFields (normal : env.IsNormal) :
    ∀ fields : List (Expr × Expr), ∀ field ∈ inferFields env fields, field.2.IsNormal
  | [] => by simp [inferFields]
  | (_, value) :: rest =>
    forall_mem_cons.mpr ⟨isNormal_infer normal value, isNormal_inferFields normal rest⟩
termination_by structural fields => fields

theorem isNormal_inferCases (normal : env.IsNormal) :
    ∀ cases : List (MatchCase Expr), ∀ type ∈ inferCases env cases, type.IsNormal
  | [] => by simp [inferCases]
  | ⟨_, result⟩ :: rest =>
    forall_mem_cons.mpr ⟨isNormal_infer normal result, isNormal_inferCases normal rest⟩
termination_by structural cases => cases

end

theorem isNormal_ofFunction (decl : FunctionDecl) : (ofFunction decl).IsNormal := by
  refine .function _ ?_
  cases decl.returns with
  | none => exact .any
  | some spec => exact isNormal_ofSpec spec

namespace Environment.IsNormal

theorem functionTypes {payload vars : DataType} (payloadNormal : payload.IsNormal)
    (varsNormal : vars.IsNormal) (script : Script) :
    (script.functionTypes payload vars).IsNormal := by
  suffices keeps : ∀ env : Environment, env.IsNormal →
      (script.header.functions.foldl (fun env decl => env.bind decl.name (ofFunction decl))
        env).IsNormal from
    keeps ⟨payload, vars, []⟩ ⟨payloadNormal, varsNormal, by simp⟩
  induction script.header.functions with
  | nil => exact fun env normal => normal
  | cons decl _ ih =>
    exact fun env normal =>
      ih _ (normal.bind decl.name (isNormal_ofFunction decl))

/-- A variable has the type of its value, which is normal where it stands. -/
theorem declare (normal : env.IsNormal) (decls : List VariableDecl) :
    (env.declare decls).IsNormal := by
  induction decls generalizing env with
  | nil => exact normal
  | cons decl _ ih =>
    exact ih (normal.bind decl.name (isNormal_infer normal decl.value))

end Environment.IsNormal

/-- The type of a script is normal if the types of the payload and of the variables are. -/
theorem isNormal_ofScript {payload vars : DataType} (payloadNormal : payload.IsNormal)
    (varsNormal : vars.IsNormal) (script : Script) : (ofScript payload vars script).IsNormal :=
  isNormal_infer ((Environment.IsNormal.functionTypes payloadNormal varsNormal script).declare
    script.header.bindings) script.body

/-- A field comes before one that is written first, and unions of unions are flat. -/
theorem isNormal_ofScript_fields : (DataType.union [.text, .null]).IsNormal ∧
      ofScript (.union [.text, .null]) .any
          ⟨.plain, .object [(.text "size", .orElse (.name "payload" .nowhere) (.number 1)),
            (.text "name", .name "payload" .nowhere)]⟩ =
        .object [("name", .union [.text, .null]), ("size", .union [.text, .null, .number])] false ∧
      (DataType.object [("name", .union [.text, .null]),
        ("size", .union [.text, .null, .number])] false).IsNormal := by
  have payloadNormal : (DataType.union [.text, .null]).IsNormal :=
    .union (Nat.le_refl 2) (by simp) (by simp [isOption]) (by simp [IsNormal.text, IsNormal.null])
  have inferred :
      ofScript (.union [.text, .null]) .any
          ⟨.plain, .object [(.text "size", .orElse (.name "payload" .nowhere) (.number 1)),
            (.text "name", .name "payload" .nowhere)]⟩ =
        .object [("name", .union [.text, .null]), ("size", .union [.text, .null, .number])]
          false := by
    cbv
  exact ⟨payloadNormal, inferred, inferred ▸ isNormal_ofScript payloadNormal .any _⟩

end DataType

end Weave
