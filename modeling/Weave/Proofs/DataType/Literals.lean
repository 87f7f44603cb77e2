import Weave.Proofs.DataType.Soundness
import Weave.Proofs.Script.Plain

namespace Weave

open DataType List

/-!
# Types of object literals

The type of an object literal takes its field names from the keys that are texts.  While the
literal is evaluated field by field, its entries have the keys that the fields of its type have at
the same point.
-/

variable {setting : Setting} {ctx : Context} {env : Environment} {depth : Nat}
  {pairs : List (Expr × Expr)} {name : String}

/-! ## Constant keys -/

theorem Engine.eq_of_eval_plain {text : String} {value : Value} (isPlain : (Expr.text text).IsPlain)
    (evals : ((upTo setting depth).eval ctx (.text text)).result = .ok value) :
    value = .text text :=
  eq_of_eval_text (cutAt?_interpolationMark.mpr isPlain.here) evals

theorem join_of_constantText? (arePlain : ∀ part ∈ parts, part.IsPlain)
    (isConstant : constantText? parts = some name) (evals :
      Forall₂
        (fun part text => ∃ value,
          ((Engine.upTo setting depth).eval ctx part).result = .ok value ∧
            value.interpolated = .ok text)
        parts texts) :
    String.join texts = name := by
  induction evals generalizing name with
  | nil => exact Option.some.inj isConstant
  | @cons part text _ _ isEvaluated _ ih =>
    rw [forall_mem_cons] at arePlain
    cases part with
    | text written =>
      obtain ⟨_, areOthers, rfl⟩ := Option.map_eq_some_iff.mp isConstant
      obtain ⟨_, valueEvaluated, isText⟩ := isEvaluated
      obtain rfl := Engine.eq_of_eval_plain arePlain.1 valueEvaluated
      obtain rfl : written = text := Except.ok.inj isText
      rw [String.join_cons, ih arePlain.2 areOthers]
    | _ => cases isConstant

theorem eq_of_constantKey? {key : Expr} (isPlain : key.IsPlain)
    (isConstant : constantKey? key = some name) (notName : ∀ word pos, key ≠ .name word pos)
    (evals : ((Engine.upTo setting depth).eval ctx key).result = .ok value) :
    value = .text name := by
  cases key with
  | text =>
    obtain rfl := Option.some.inj isConstant
    exact Engine.eq_of_eval_plain isPlain evals
  | name word pos => exact absurd rfl (notName word pos)
  | template =>
    obtain ⟨_, step⟩ := Engine.step_of_eval evals
    simp only [Eval.step, Outcome.result_bind_eq_ok, Outcome.result_each_eq_ok, Outcome.result_lift,
      Outcome.result_pure, Except.ok.injEq] at step
    obtain ⟨_, computed, rfl⟩ := step
    rw [join_of_constantText? (fun part mem => isPlain.child (.part mem)) isConstant computed]
  | _ => cases isConstant

/-! ## Keys and fields -/

theorem keys_of_fields {entries result : Entries} {fields : List (String × DataType)}
    (arePlain : ∀ pair ∈ pairs, pair.1.IsPlain)
    (areConstant : ∀ pair ∈ pairs, (constantKey? pair.1).isSome)
    (notNames : ∀ pair ∈ pairs, ∀ word pos, pair.1 ≠ .name word pos)
    (sameKeys : entries.map Prod.fst = (fields.map Prod.fst).map Key.text) (evals :
      (Eval.fields (Engine.upTo setting depth) ctx entries pairs).result = .ok result)
    (env : Environment) :
    result.map Prod.fst =
      ((addFields fields (inferFields env pairs)).map Prod.fst).map Key.text := by
  induction pairs generalizing entries fields with
  | nil =>
    obtain rfl : entries = result := Except.ok.inj evals
    exact sameKeys
  | cons _ _ ih =>
    rw [forall_mem_cons] at arePlain areConstant notNames
    obtain ⟨name, isConstant⟩ := Option.isSome_iff_exists.mp areConstant.1
    simp only [Eval.fields, Outcome.result_bind_eq_ok] at evals
    obtain ⟨_, keyEvaluated, key, isKey, _, _, restEvaluated⟩ := evals
    obtain rfl := eq_of_constantKey? arePlain.1 isConstant notNames.1 keyEvaluated
    obtain rfl : Key.text name = key := Except.ok.inj isKey
    rw [inferFields, isConstant]
    refine ih arePlain.2 areConstant.2 notNames.2 ?_ restEvaluated
    rw [Entries.insert, keys_setPair, map_fst_addField]
    split <;> simp_all

theorem noneOpen_iff (env : Environment) : (inferFields env pairs).any (·.1.isNone) = false ↔
      ∀ pair ∈ pairs, (constantKey? pair.1).isSome := by
  induction pairs with
  | nil => simp [inferFields]
  | cons _ _ ih => simp [inferFields, ih]

/-- A closed type of an object literal lists all the keys of the objects it is evaluated to, unless
a key in parentheses is a name. -/
theorem Session.closed_type_lists_keys (source : List Char) (script : Script)
    (pairs : List (Expr × Expr)) (payloadType varsType : DataType)
    (fields : List (String × DataType)) (setting : Setting) (context : Context) (value : Value)
    (isRead : Script.parse source = .ok script) (isLiteral : script.body = .object pairs)
    (notNames : ∀ pair ∈ pairs, ∀ word position, pair.1 ≠ .name word position)
    (isClosed : ofScript payloadType varsType script = .object fields false)
    (evals : (script.body.eval setting context).result = .ok value) :
    ∃ entries : Entries, value = .record entries ∧
      (entries.map Prod.fst).Perm (fields.map fun field => Key.text field.1) := by
  have isPlain := (Script.parse_leaves source script isRead).body
  rw [isLiteral] at evals isPlain
  change infer _ script.body = _ at isClosed
  rw [isLiteral] at isClosed
  obtain ⟨_, step⟩ := Engine.step_of_eval evals
  simp only [Eval.step, Outcome.result_bind_eq_ok, Outcome.result_pure, Except.ok.injEq] at step
  obtain ⟨entries, computed, rfl⟩ := step
  simp only [infer, objectOf, ofFields, object.injEq, Bool.or_eq_false_iff] at isClosed
  have areConstant := (noneOpen_iff _).mp isClosed.2.1
  have sameKeys :=
    keys_of_fields (fun pair member => isPlain.child (.key member)) areConstant notNames
      (show [].map Prod.fst = ([].map Prod.fst).map Key.text from rfl) computed
  refine ⟨entries, rfl, ?_⟩
  rw [sameKeys, ← isClosed.1, map_map]
  exact (mergeSort_perm _ _).symm.map _

/-- An object literal with a key that comes twice and one that is put together from pieces. -/
def Script.repeated : Script :=
  ⟨Header.plain, .object [(.text "b", .null), (.template [.text "a", .text "c"], .boolean true),
    (.text "b", .null)]⟩

theorem Session.closed_type_lists_keys_repeated :
    Script.parse "\x7bb: null, \"a$('c')\": true, b: null\x7d".toList = .ok .repeated ∧
      ∃ entries : Entries,
        (Script.repeated.body.eval ⟨⟨"", 0⟩, []⟩ ⟨.null, [], 0⟩).result = .ok (.record entries) ∧
          (entries.map Prod.fst).Perm [.text "ac", .text "b"] := by
  have isRead :
      Script.parse "\x7bb: null, \"a$('c')\": true, b: null\x7d".toList = .ok .repeated := by
    cbv
  have isClosed :
      ofScript .any .any .repeated = .object [("ac", .boolean), ("b", .null)] false := by
    cbv
  have evals :
      (Script.repeated.body.eval ⟨⟨"", 0⟩, []⟩ ⟨.null, [], 0⟩).result =
        .ok (.record [(.text "b", .null), (.text "ac", .bool true)]) :=
    rfl
  obtain ⟨entries, isRecord, sameKeys⟩ :=
    Session.closed_type_lists_keys _ .repeated _ .any .any _ _ _ _ isRead rfl (by simp) isClosed
      evals
  exact ⟨isRead, entries, evals.trans (congrArg Except.ok isRecord), sameKeys⟩

/-! ## Indices -/

theorem DataType.addFields_eq_nil_iff (fields : List (String × DataType))
    (areConstant : ∀ pair ∈ pairs, (constantKey? pair.1).isSome) :
    addFields fields (inferFields env pairs) = [] ↔ fields = [] ∧ pairs = [] := by
  induction pairs generalizing fields with
  | nil => simp [inferFields, addFields]
  | cons pair _ ih =>
    rw [forall_mem_cons] at areConstant
    obtain ⟨name, isConstant⟩ := Option.isSome_iff_exists.mp areConstant.1
    have isAdded : addField fields name (infer env pair.2) ≠ [] := by
      intro isNil
      have names := map_fst_addField fields name (infer env pair.2)
      split at names <;> simp_all
    rw [inferFields, isConstant, addFields, ih _ areConstant.2]
    simp [isAdded]

/-- A literal with constant keys is of a closed type unless it has no fields. -/
theorem DataType.infer_object (env : Environment)
    (areConstant : ∀ pair ∈ pairs, (constantKey? pair.1).isSome) :
    ∃ fields, infer env (.object pairs) = .object fields (decide (pairs = [])) := by
  have noneOpen := (noneOpen_iff env).mpr areConstant
  have isOpen : (addFields [] (inferFields env pairs)).isEmpty = decide (pairs = []) := by
    rw [Bool.eq_iff_iff, List.isEmpty_iff, addFields_eq_nil_iff [] areConstant]
    simp
  exact ⟨_, by rw [infer, objectOf, ofFields, noneOpen, isOpen, Bool.false_or]⟩

/-- What a text picks out of an object literal is of the inferred type only if the literal is empty
or null is picked: the type looks at no field.  The type of the selector of the same name, which
does, is right whenever the types of the fields are. -/
theorem Session.index_typed_iff (source : List Char) (script : Script) (pairs : List (Expr × Expr))
    (name : String) (payloadType varsType : DataType) (setting : Setting) (context : Context)
    (value : Value) (isRead : Script.parse source = .ok script)
    (isIndex : script.body = .index (.object pairs) (.text name))
    (areTexts : ∀ pair ∈ pairs, ∃ key, pair.1 = .text key)
    (evals : (script.body.eval setting context).result = .ok value) :
    let environment := (script.functionTypes payloadType varsType).declare script.header.bindings
    (value.Inhabits (ofScript payloadType varsType script) ↔ pairs = [] ∨ value = .null) ∧
      ((∀ pair ∈ pairs, pair.2.IsSound setting context environment) →
        value.Inhabits (infer environment (.property (.object pairs) (.key name) false)) ∧
          (Expr.property (.object pairs) (.key name) false).IsSound setting context
            environment) := by
  have isPlain := (Script.parse_leaves source script isRead).body
  rw [isIndex] at evals isPlain
  have areConstant : ∀ pair ∈ pairs, (constantKey? pair.1).isSome := by
    intro pair member
    obtain ⟨key, isText⟩ := areTexts pair member
    rw [isText]
    rfl
  intro environment
  obtain ⟨_, isObject⟩ := infer_object environment areConstant
  refine ⟨?_, fun areSound => ?_⟩
  · have isItem :
        ofScript payloadType varsType script = item true (infer environment (.object pairs)) := by
      change infer environment script.body = _
      rw [isIndex]
      rfl
    rw [isItem, isObject]
    by_cases isEmpty : pairs = []
    · simp [isEmpty, item, Value.Inhabits.any]
    · simp only [isEmpty, decide_false, item, false_or]
      constructor
      · rintro ⟨⟩
        rfl
      · rintro rfl
        exact .null
  · obtain ⟨shallower, step⟩ := Engine.step_of_eval evals
    simp only [Eval.step, Outcome.result_bind_eq_ok, Outcome.result_lift] at step
    obtain ⟨base, baseEvaluated, _, indexEvaluated, picked⟩ := step
    have nameIsPlain := isPlain.child .place
    obtain rfl := Engine.eq_of_eval_plain nameIsPlain indexEvaluated
    have arePlain : ∀ pair ∈ pairs, ∃ key : String,
        pair.1 = .text key ∧ Text.cutAt? interpolationMark key.toList = none := by
      intro pair member
      obtain ⟨key, isText⟩ := areTexts pair member
      have keyIsPlain : pair.1.IsPlain := (isPlain.child .indexed).child (.key member)
      rw [isText] at keyIsPlain
      exact ⟨key, isText, cutAt?_interpolationMark.mpr keyIsPlain.here⟩
    have isSound := Expr.IsSound.object arePlain areSound
    refine ⟨?_, isSound.property name false⟩
    have inhabited := isSound shallower base baseEvaluated
    rw [isObject] at inhabited
    rw [infer, isObject]
    cases inhabited with
    | @object entries _ _ present inhabited declared =>
      obtain rfl : Value.entry entries name = value := Except.ok.inj picked
      exact inhabits_entry (.object present inhabited declared) name

/-- The field of a literal, picked by an index. -/
def Script.picked : Script :=
  ⟨Header.plain, .index (.object [(.text "a", .boolean true)]) (.text "a")⟩

theorem Session.index_typed_iff_picked :
    Script.parse "\x7ba: true\x7d[\"a\"]".toList = .ok .picked ∧
      (Script.picked.body.eval ⟨⟨"", 0⟩, []⟩ ⟨.null, [], 0⟩).result = .ok (.bool true) ∧
      ¬ (Value.bool true).Inhabits (ofScript .any .any .picked) ∧
      (Value.bool true).Inhabits .boolean := by
  have isRead : Script.parse "\x7ba: true\x7d[\"a\"]".toList = .ok .picked := by cbv
  have evals :
      (Script.picked.body.eval ⟨⟨"", 0⟩, []⟩ ⟨.null, [], 0⟩).result = .ok (.bool true) :=
    rfl
  have fits : Context.Fits [] ⟨.null, [], 0⟩ ⟨.any, .any, []⟩ := ⟨.any _, by simp⟩
  obtain ⟨isTyped, isRight⟩ :=
    Session.index_typed_iff _ .picked _ "a" .any .any _ _ _ isRead rfl (by simp) evals
  have isField :
      infer ⟨.any, .any, []⟩
        (.property (.object [(.text "a", .boolean true)]) (.key "a") false) = .boolean := by
    cbv
  refine ⟨isRead, evals, by simp [isTyped], ?_⟩
  rw [← isField]
  exact (isRight (forall_mem_singleton.mpr ((Expr.IsCore.boolean true).isSound fits _))).1

end Weave
