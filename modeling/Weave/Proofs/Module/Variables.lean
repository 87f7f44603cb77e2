import Weave.Proofs.Eval.Binding
import Weave.Proofs.Module.Script

namespace Weave

/-!
# The variables of a module

The script of a module declares a variable for each function, which holds its lambda, and a variable
for each name, which holds the entries of all functions with this name.  A lambda sees the variables
that are there before the module; the variables of the module itself have names with two underscores
in a row.
-/

open List

variable {payload value : Value} {overload : Overload} {callee : Function} {name : String}
  {group : String × List Overload} {groups : List (String × List Overload)}
  {decls : List (List VariableDecl)} {numbered : List (Overload × Nat)} {expr : Expr}
  {lambdas : List VariableDecl} {before bindings : Bindings} {decl : VariableDecl}

namespace Module

/-! ## Names of variables -/

/-- No built-in function has a name with two underscores in a row. -/
theorem isFree_of_doubled (isDoubled : ['_', '_'] <:+: name.toList) :
    (name ≠ "payload" ∧ name ≠ "vars") ∧ name ≠ "_binary_plus" ∧ Builtin.named? name = none := by
  have noneDoubled :
      ∀ other ∈ "payload" :: "vars" :: "_binary_plus" ::
          (Builtin.core ++ Builtin.operators).map Builtin.name,
        Text.contains other.toList ['_', '_'] = false := by
    decide +kernel
  have differs {other : String} (notDoubled : Text.contains other.toList ['_', '_'] = false) :
      name ≠ other := by
    rintro rfl
    have noCut : Text.cutAt? ['_', '_'] name.toList = none := by
      simpa [Text.contains] using notDoubled
    exact (Text.cutAt?_eq_none_iff (by decide) _).mp noCut isDoubled
  simp only [forall_mem_cons, forall_mem_map] at noneDoubled
  obtain ⟨payload, vars, plus, builtins⟩ := noneDoubled
  refine ⟨⟨differs payload, differs vars⟩, differs plus, ?_⟩
  apply find?_eq_none.mpr
  intro builtin mem
  have isOther := differs (builtins builtin mem)
  simpa using Ne.symm isOther

/-- The name has two underscores in a row, as the variables of a module have. -/
def IsDoubled (name : String) : Prop := ['_', '_'] <:+: name.toList

theorem isDoubled_variableName (name : String) (index : Nat) :
    IsDoubled (variableName name index) := by
  rw [IsDoubled, toList_variableName]
  exact ⟨name.toList, "overload_".toList ++ Nat.toDigits 10 index, by simp⟩

theorem isDoubled_overloadsName (name : String) : IsDoubled (overloadsName name) := by
  rw [overloadsName]
  exact ⟨name.toList, "overloads".toList, by simp⟩

/-- The last character tells the two kinds of variables apart. -/
theorem overloadsName_ne_variableName (name other : String) (index : Nat) :
    overloadsName name ≠ variableName other index := by
  intro same
  have texts := congrArg (fun text : String => text.toList.getLast?) same
  have isSome : Nat.toDigits 10 index ≠ [] := Nat.toDigits_ne_nil
  have isLast := getLast?_eq_some_getLast isSome
  simp only [toList_variableName, overloadsName, String.toList_append, getLast?_append,
    isLast] at texts
  have sameLast : 's' = (Nat.toDigits 10 index).getLast isSome := by
    simpa using texts
  have isDigit := Nat.isDigit_of_mem_toDigits (by decide) (by decide) (getLast_mem isSome)
  rw [← sameLast] at isDigit
  exact absurd isDigit (by decide)

theorem overloadsName_inj (same : overloadsName name = overloadsName other) : name = other := by
  have texts := congrArg String.toList same
  simp only [overloadsName, String.toList_append] at texts
  exact String.toList_inj.mp (append_cancel_right texts)

theorem variableName_inj (same : variableName name index = variableName name other) :
    index = other := by
  have texts := congrArg String.toList same
  rw [toList_variableName, toList_variableName] at texts
  have sameDigits := append_cancel_left (append_cancel_left texts)
  have values := congrArg (Nat.ofDigitChars 10 · 0) sameDigits
  simpa only [Nat.ofDigitChars_ten_toDigits] using values

/-! ## Lambdas -/

/-- The function is the lambda of an overload, which sees the given variables but for those with
doubled names. -/
def IsLambdaOf (bindings : Bindings) (payload : Value) (overload : Overload)
    (callee : Function) : Prop :=
  ∃ parameters inner, ∃ captured : Bindings,
    callee = .lambda parameters inner captured payload ∧
      Expr.parse overload.lambdaText = .ok (.lambda parameters inner) ∧
      ∀ asked, ¬ IsDoubled asked → captured.find? asked = bindings.find? asked

theorem IsLambdaOf.of_agree (isLambda : IsLambdaOf bindings payload overload callee)
    (agree : ∀ asked, ¬ IsDoubled asked → bindings.find? asked = before.find? asked) :
    IsLambdaOf before payload overload callee := by
  obtain ⟨params, inner, captured, isCallee, isRead, sees⟩ := isLambda
  refine ⟨params, inner, captured, isCallee, isRead, fun asked notDoubled => ?_⟩
  rw [sees asked notDoubled, agree asked notDoubled]

theorem find?_set_of_not_isDoubled (isDoubled : IsDoubled name) (notDoubled : ¬ IsDoubled asked)
    (bindings : Bindings) (value : Value) :
    (bindings.set name value).find? asked = bindings.find? asked := by
  have differs : asked ≠ name := by
    rintro rfl
    exact notDoubled isDoubled
  rw [Bindings.find?_set, if_neg differs]

theorem DeclareEach.names (named : DeclareEach name numbered lambdas) :
    lambdas.map (·.name) = numbered.map fun one => variableName name one.2 := by
  induction named with
  | nil => rfl
  | cons isNamed _ ih => rw [map_cons, map_cons, ih, isNamed.1]

/-- The variables for single functions hold their lambdas. -/
theorem declareVariables_lambdas (named : DeclareEach name numbered lambdas)
    (distinct : (numbered.map (·.2)).Nodup) (areLambdas :
      ∀ one ∈ numbered, ∃ params inner, Expr.parse one.1.lambdaText = .ok (.lambda params inner))
    (session : Session) (ambient : Ambient) (payload : Value) (bindings : Bindings) :
    ∃ after,
      (session.declareVariables ambient payload bindings lambdas).result = .ok after ∧
        ∀ one ∈ numbered, ∃ callee,
          after.find? (variableName name one.2) = some (.function callee) ∧
            IsLambdaOf bindings payload one.1 callee := by
  induction named generalizing bindings with
  | nil => exact ⟨bindings, rfl, by simp⟩
  | @cons one decl _ lambdas isNamed others ih =>
    rw [map_cons, nodup_cons] at distinct
    rw [forall_mem_cons] at areLambdas
    obtain ⟨declaredName, value⟩ := decl
    obtain ⟨⟨params, inner, isRead⟩, othersAreLambdas⟩ := areLambdas
    obtain ⟨rfl, valueRead⟩ := isNamed
    obtain rfl := Except.ok.inj (isRead.symm.trans valueRead)
    let callee : Function := .lambda params inner bindings payload
    obtain ⟨after, declared, held⟩ :=
      ih distinct.2 othersAreLambdas (bindings.set (variableName name one.2) (.function callee))
    have isOwn : after.find? (variableName name one.2) = some (.function callee) := by
      rw [Session.find?_of_declareVariables ?_ declared, Bindings.find?_set, if_pos rfl]
      intro other mem same
      have isName : other.name ∈ lambdas.map (·.name) := mem_map_of_mem mem
      rw [DeclareEach.names others] at isName
      obtain ⟨otherOne, isOther, sameName⟩ := mem_map.mp isName
      refine distinct.1 (mem_map.mpr ⟨otherOne, isOther, ?_⟩)
      exact variableName_inj (sameName.trans same.symm)
    refine ⟨after, declared, forall_mem_cons.mpr ⟨?_, fun other mem => ?_⟩⟩
    · exact ⟨callee, isOwn, params, inner, bindings, rfl, isRead, fun _ _ => rfl⟩
    · obtain ⟨otherCallee, isFound, isLambda⟩ := held other mem
      refine ⟨otherCallee, isFound, isLambda.of_agree fun asked notDoubled => ?_⟩
      exact find?_set_of_not_isDoubled (isDoubled_variableName _ _) notDoubled _ _

/-! ## Entries -/

/-- The type of a parameter as a value. -/
def typeValue : Option String → Value
  | some type => .text (String.ofList (Text.Escape.byteCharacters type.toList))
  | none => .null

/-- The entry of a function with its lambda. -/
def entryValue (overload : Overload) (callee : Function) : Value :=
  .record [(.text "function", .function callee),
    (.text "paramTypes",
      .array (overload.parameters.map fun parameter => typeValue parameter.2))]

/-- Two lists that look alike are related item by item. -/
theorem forall₂_of_map_eq {items : List α} {others : List β}
    (same : items.map view = others.map otherView)
    (relate : ∀ item, ∀ other ∈ others, view item = otherView other → rel item other) :
    Forall₂ rel items others := by
  rw [← forall₂_eq_eq_eq, forall₂_map_left_iff, forall₂_map_right_iff] at same
  induction same with
  | nil => exact .nil
  | cons isSame _ ih =>
    rw [forall₂_cons]
    exact ⟨relate _ _ mem_cons_self isSame, ih fun item other mem =>
      relate item other (.tail _ mem)⟩

/-- Wherever it stands, the expression leaves the value. -/
def Leaves (setting : Setting) (ctx : Context) (depth : Nat) (expected : Expr)
    (value : Value) : Prop :=
  ∀ expr, expr.placeless = expected → ((Engine.upTo setting depth).eval ctx expr).result = .ok value

namespace Leaves

variable {setting : Setting} {ctx : Context} {depth : Nat}

theorem text (isPlain : Text.cutAt? interpolationMark word.toList = none) :
    Leaves setting ctx (depth + 1) (.text word) (.text word) := by
  intro expr viewed
  obtain rfl := Expr.eq_text_of_placeless viewed
  exact congrArg Outcome.result (Eval.step_text_of_plain isPlain _ ctx)

/-- A variable of a module is found under its name. -/
theorem doubled (isDoubled : IsDoubled word) (isBound : ctx.bindings.find? word = some value) :
    Leaves setting ctx (depth + 1) (.name word .nowhere) value := by
  intro expr viewed
  obtain ⟨pos, rfl⟩ := Expr.eq_name_of_placeless viewed
  obtain ⟨isFree, honoured⟩ := isFree_of_doubled isDoubled
  change (ctx.resolve word pos).result = _
  rw [Context.resolve_of_bound isFree isBound pos, (Context.denoted_eq_iff word).mpr honoured]
  rfl

variable {items : List α} {word : α → String} {expected : α → Expr} {value : α → Value}

theorem list (each : ∀ item ∈ items, Leaves setting ctx depth (expected item) (value item)) :
    Leaves setting ctx (depth + 1) (.list (items.map expected)) (.array (items.map value)) := by
  intro expr viewed
  obtain ⟨elements, rfl, same⟩ := Expr.eq_list_of_placeless viewed
  refine Outcome.result_bind_of_ok (Outcome.result_each_eq_ok.mpr ?_) _
  rw [forall₂_map_right_iff]
  exact forall₂_of_map_eq same fun element item mem => each item mem element

theorem object (each : ∀ item ∈ items, Text.cutAt? interpolationMark (word item).toList = none ∧
      Leaves setting ctx (depth + 1) (expected item) (value item))
    (unique : (items.map word).Nodup) :
    Leaves setting ctx (depth + 2)
      (.object (items.map fun item => (.text (word item), expected item)))
      (.record (items.map fun item => (.text (word item), value item))) := by
  intro expr viewed
  obtain ⟨fields, rfl, same⟩ := Expr.eq_object_of_placeless viewed
  have evals (entries : Entries) :
      (Eval.fields (Engine.upTo setting (depth + 1)) ctx entries fields).result =
        .ok (entries.insertAll (items.map fun item => (.text (word item), value item))) := by
    have leaves := forall₂_of_map_eq same fun field item mem looks =>
      And.intro (@text setting ctx depth _ (each item mem).1 field.1 (Prod.mk.inj looks).1)
        ((each item mem).2 field.2 (Prod.mk.inj looks).2)
    clear same viewed unique each
    induction leaves generalizing entries with
    | nil => rfl
    | @cons _ item _ _ isEvaluated _ ih =>
      rw [Eval.fields, Outcome.result_bind_of_ok isEvaluated.1]
      rw [Outcome.result_bind_of_ok (show ((Eval.keyOf (.text (word item)) : Except Fault Key) :
        Outcome Key).result = .ok (.text (word item)) from rfl)]
      rw [Outcome.result_bind_of_ok isEvaluated.2, ih]
      rfl
  have distinct :
      ((items.map fun item => (Key.text (word item), value item)).map Prod.fst).Nodup := by
    simpa [Function.comp_def] using unique.map fun _ _ => Key.text.inj
  refine Outcome.result_bind_of_ok ((evals []).trans ?_) _
  exact congrArg Except.ok (Entries.ofList_of_nodup distinct)

end Leaves

variable {setting : Setting} {ctx : Context}

theorem leaves_type (noDollar : ∀ written ∈ type, '$' ∉ written.toList) (depth : Nat) :
    Leaves setting ctx (depth + 1) (typeExpr type) (typeValue type) := by
  cases type with
  | none =>
    intro expr viewed
    obtain rfl := Expr.eq_null_of_placeless viewed
    rfl
  | some written =>
    refine .text ?_
    rw [String.toList_ofList]
    exact Text.cutAt?_eq_none_of_not_mem
      (Text.Escape.not_mem_byteCharacters (by decide) (noDollar written rfl)) _

theorem leaves_entry (plainTypes : overload.HasPlainTypes)
    (isHeld : ctx.bindings.find? (variableName name index) = some (.function callee))
    (depth : Nat) :
    Leaves setting ctx (depth + 3) (entryExpr name index overload)
      (entryValue overload callee) := by
  have types : Leaves setting ctx (depth + 2) _ _ :=
    .list fun param mem => leaves_type (plainTypes param mem) depth
  have function : Leaves setting ctx (depth + 2) _ _ :=
    .doubled (isDoubled_variableName name index) isHeld
  exact @Leaves.object _ setting ctx (depth + 1) [("function", _, _), ("paramTypes", _, _)] (·.1)
    (·.2.1) (·.2.2) (by
      simp only [forall_mem_cons]
      exact ⟨⟨by decide, function⟩, ⟨by decide, types⟩, by simp⟩) (by simp)

/-! ## Groups -/

/-- The value is a list with an entry for each function with one name, which holds its lambda. -/
def IsGroupValue (bindings : Bindings) (payload : Value) (group : String × List Overload)
    (value : Value) : Prop :=
  ∃ entries, value = .array entries ∧
    Forall₂
      (fun overload entry =>
        ∃ callee, entry = entryValue overload callee ∧ IsLambdaOf bindings payload overload callee)
      group.2 entries

theorem IsGroupValue.of_agree (isGroupValue : IsGroupValue bindings payload group value)
    (agree : ∀ asked, ¬ IsDoubled asked → bindings.find? asked = before.find? asked) :
    IsGroupValue before payload group value := by
  obtain ⟨entries, isValue, areEntries⟩ := isGroupValue
  refine ⟨entries, isValue, areEntries.imp ?_⟩
  rintro overload entry ⟨callee, isEntry, isLambda⟩
  exact ⟨callee, isEntry, isLambda.of_agree agree⟩

/-- The names of the variables for the functions with one name. -/
theorem Declares.name_eq {decls : List VariableDecl} (declares : Declares group decls)
    (mem : decl ∈ decls) :
    decl.name = overloadsName group.1 ∨ ∃ index, decl.name = variableName group.1 index := by
  obtain ⟨lambdas, whole, rfl, named, _⟩ := declares
  rcases mem_append.mp mem with isLambda | isWhole
  · have isName : decl.name ∈ lambdas.map (·.name) := mem_map_of_mem isLambda
    rw [DeclareEach.names named] at isName
    obtain ⟨one, _, sameName⟩ := mem_map.mp isName
    exact .inr ⟨one.2, sameName.symm⟩
  · rw [mem_singleton.mp isWhole]
    exact .inl rfl

/-- The variables for the functions with one name hold their lambdas and the list of their
entries. -/
theorem declareVariables_group {decls : List VariableDecl} (declares : Declares group decls)
    (areLambdas :
      ∀ overload ∈ group.2, ∃ params inner,
        Expr.parse overload.lambdaText = .ok (.lambda params inner))
    (plainTypes : ∀ overload ∈ group.2, overload.HasPlainTypes) (session : Session)
    (ambient : Ambient) (payload : Value) (bindings : Bindings) :
    ∃ after value,
      (session.declareVariables ambient payload bindings decls).result = .ok after ∧
        after.find? (overloadsName group.1) = some value ∧
        IsGroupValue bindings payload group value := by
  obtain ⟨lambdas, whole, rfl, named, viewed⟩ := declares
  have distinct : (group.2.zipIdx.map (·.2)).Nodup := by
    simpa using nodup_range'
  obtain ⟨middle, lambdasDeclared, held⟩ :=
    declareVariables_lambdas named distinct
      (fun one isNumbered => areLambdas one.1 (fst_mem_of_mem_zipIdx isNumbered)) session
      ambient payload bindings
  have : Nonempty Function := ⟨.dispatch []⟩
  choose! callee isHeld isLambda using held
  have leaves (one) (isNumbered : one ∈ group.2.zipIdx) :=
    @leaves_entry one.1 (callee one) group.1 (session.setting ambient ⟨payload, middle⟩)
      ⟨payload, middle, 0⟩ one.2 (plainTypes one.1 (fst_mem_of_mem_zipIdx isNumbered))
      (isHeld one isNumbered) 1996
  let entries := group.2.zipIdx.map fun one => entryValue one.1 (callee one)
  refine ⟨middle.set (overloadsName group.1) (.array entries), .array entries, ?_, ?_, entries, rfl,
    ?_⟩
  · rw [Session.declareVariables_append, Outcome.result_bind_of_ok lambdasDeclared]
    exact Outcome.result_bind_of_ok (Leaves.list leaves whole viewed) _
  · rw [Bindings.find?_set, if_pos rfl]
  · have ofOverloads := zipIdx_map_fst 0 group.2
    rw [← ofOverloads, forall₂_map_left_iff, forall₂_map_right_iff, forall₂_same]
    exact fun one isNumbered => ⟨callee one, rfl, isLambda one isNumbered⟩

theorem exists_group_of_mem (declare : Forall₂ Declares groups decls) (mem : decl ∈ decls.flatten) :
    ∃ group ∈ groups,
      decl.name = overloadsName group.1 ∨ ∃ index, decl.name = variableName group.1 index := by
  induction declare with
  | nil => cases mem
  | @cons group _ _ _ declares _ ih =>
    rw [flatten_cons, mem_append] at mem
    rcases mem with isFirst | isOther
    · exact ⟨group, mem_cons_self, declares.name_eq isFirst⟩
    · obtain ⟨other, isGroup, isOwn⟩ := ih isOther
      exact ⟨other, .tail _ isGroup, isOwn⟩

/-- The variables of a module hold the entries of its functions under their names. -/
theorem declareVariables_groups (declare : Forall₂ Declares groups decls)
    (distinct : (groups.map (·.1)).Nodup) (areLambdas :
      ∀ group ∈ groups, ∀ overload ∈ group.2, ∃ params inner,
        Expr.parse overload.lambdaText = .ok (.lambda params inner))
    (plainTypes : ∀ group ∈ groups, ∀ overload ∈ group.2, overload.HasPlainTypes)
    (session : Session) (ambient : Ambient) (payload : Value) (bindings : Bindings) :
    ∃ after,
      (session.declareVariables ambient payload bindings decls.flatten).result = .ok after ∧
        ∀ group ∈ groups, ∃ value,
          after.find? (overloadsName group.1) = some value ∧
            IsGroupValue bindings payload group value := by
  induction declare generalizing bindings with
  | nil => exact ⟨bindings, rfl, by simp⟩
  | @cons group _ _ _ declares declareOthers ih =>
    rw [map_cons, nodup_cons] at distinct
    rw [forall_mem_cons] at areLambdas plainTypes
    obtain ⟨middle, value, firstDeclared, isFirst, isGroupValue⟩ :=
      declareVariables_group declares areLambdas.1 plainTypes.1 session ambient payload bindings
    obtain ⟨after, othersDeclared, held⟩ := ih distinct.2 areLambdas.2 plainTypes.2 middle
    have agree (asked : String) (notDoubled : ¬ IsDoubled asked) :
        middle.find? asked = bindings.find? asked := by
      apply Session.find?_of_declareVariables _ firstDeclared
      intro decl mem same
      apply notDoubled
      rw [same]
      rcases declares.name_eq mem with isWhole | ⟨index, isLambda⟩
      · rw [isWhole]
        exact isDoubled_overloadsName group.1
      · rw [isLambda]
        exact isDoubled_variableName group.1 index
    refine ⟨after, ?_, forall_mem_cons.mpr ⟨⟨value, ?_, isGroupValue⟩, ?_⟩⟩
    · rw [flatten_cons, Session.declareVariables_append,
        Outcome.result_bind_of_ok firstDeclared, othersDeclared]
    · -- No later variable has the name of the list of this group.
      rw [Session.find?_of_declareVariables _ othersDeclared, isFirst]
      intro decl mem same
      obtain ⟨other, isOther, isOwn⟩ := exists_group_of_mem declareOthers mem
      rcases isOwn with isWhole | ⟨index, isLambda⟩
      · have sameName := overloadsName_inj (same.trans isWhole)
        exact distinct.1 (sameName ▸ mem_map_of_mem isOther)
      · exact overloadsName_ne_variableName _ _ _ (same.trans isLambda)
    · intro other mem
      obtain ⟨otherValue, isFound, isOtherValue⟩ := held other mem
      exact ⟨otherValue, isFound, isOtherValue.of_agree agree⟩

end Module

end Weave
