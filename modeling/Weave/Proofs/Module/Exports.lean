import Weave.Module.Load
import Weave.Proofs.Format.Held
import Weave.Proofs.Module.Variables

namespace Weave

/-!
# What a module exports

The body of the script of a module gathers the functions of the module under their names.  Each name
is exported as a function that chooses among the lambdas of its name.  So no function that is kept
is lost, unless a line of the script is no line of its own when the script is put together.
-/

open List (Forall₂)

variable {groups : List (String × List Overload)} {bindings : Bindings} {entries : Entries}
  {payload : Value}

namespace Module

variable {setting : Setting} {ctx : Context}

/-! ## Results -/

/-- An object without marks that is not an element with text stays as it is. -/
theorem unmarked_record (areUnmarked : ∀ entry ∈ entries, entry.2.unmarked = .ok entry.2)
    (noText : Entries.find? entries (.text textEntry) = none) :
    (Value.record entries).unmarked = .ok (.record entries) := by
  have isNone : Value.textOf? entries = none := by simp [Value.textOf?, noText]
  rw [Value.unmarked, Value.unmarkedEntries_eq_self areUnmarked]
  refine except_bind_eq_ok.mpr ⟨entries, rfl, ?_⟩
  rw [isNone]
  rfl

theorem unmarked_array (areUnmarked : ∀ item ∈ items, item.unmarked = .ok item) :
    (Value.array items).unmarked = .ok (.array items) := by
  rw [Value.unmarked, Value.unmarkedAll_eq_self areUnmarked]
  rfl

theorem unmarked_entryValue (overload : Overload) (callee : Function) :
    (entryValue overload callee).unmarked = .ok (entryValue overload callee) := by
  have typesUnmarked :
      (Value.array (overload.parameters.map fun param => typeValue param.2)).unmarked =
        .ok (.array (overload.parameters.map fun param => typeValue param.2)) := by
    apply unmarked_array
    rintro item mem
    obtain ⟨param, _, rfl⟩ := List.mem_map.mp mem
    cases param.2 <;> rfl
  apply unmarked_record
  · simp only [List.forall_mem_cons]
    exact ⟨rfl, typesUnmarked, by simp⟩
  · rfl

/-- The name of a type of a parameter, as a function of a module keeps it. -/
def typeName (type : Option String) : Option String :=
  match typeValue type with
  | .text name => if name.isEmpty then none else some name
  | _ => none

/-- The function chooses among the lambdas of the functions with one name. -/
def IsExport (bindings : Bindings) (payload : Value) (group : String × List Overload)
    (callee : Function) : Prop :=
  ∃ alternatives, callee = .dispatch alternatives ∧
    Forall₂
      (fun overload alternative =>
        alternative.1 = some (overload.parameters.map fun parameter => typeName parameter.2) ∧
          IsLambdaOf bindings payload overload alternative.2)
      group.2 alternatives

theorem alternative?_entryValue (overload : Overload) (callee : Function) :
    alternative? (entryValue overload callee) =
      some (some (overload.parameters.map fun param => typeName param.2), callee) := by
  have types :
      paramTypes (some (.array (overload.parameters.map fun param => typeValue param.2))) =
        some (overload.parameters.map fun param => typeName param.2) := by
    rw [paramTypes, List.map_map]
    rfl
  exact congrArg (fun found => some (found, callee)) types

/-- The list of the entries of functions is exported as a function that chooses among them. -/
theorem export?_of_isGroupValue {value : Value} (notEmpty : group.2 ≠ [])
    (isGroupValue : IsGroupValue bindings payload group value) :
    value.unmarked = .ok value ∧
      ∃ callee, export? value = some callee ∧ IsExport bindings payload group callee := by
  obtain ⟨entries, rfl, areEntries⟩ := isGroupValue
  have alts :
      ∃ alts,
        entries.filterMap alternative? = alts ∧ (∀ entry ∈ entries, entry.unmarked = .ok entry) ∧
          Forall₂
            (fun overload alt =>
              alt.1 = some (overload.parameters.map fun param => typeName param.2) ∧
                IsLambdaOf bindings payload overload alt.2)
            group.2 alts := by
    generalize group.2 = overloads at areEntries
    induction areEntries with
    | nil => exact ⟨[], rfl, by simp, .nil⟩
    | @cons overload _ _ _ isEntry _ ih =>
      obtain ⟨callee, rfl, isLambda⟩ := isEntry
      obtain ⟨alts, found, areUnmarked, areLambdas⟩ := ih
      refine
        ⟨(some (overload.parameters.map fun param => typeName param.2), callee) ::
          alts, ?_, List.forall_mem_cons.mpr ⟨?_, areUnmarked⟩,
          .cons ⟨rfl, isLambda⟩ areLambdas⟩
      · rw [List.filterMap_cons, alternative?_entryValue, found]
      · exact unmarked_entryValue overload callee
  obtain ⟨alts, found, areUnmarked, areLambdas⟩ := alts
  refine ⟨unmarked_array areUnmarked, .dispatch alts, ?_, alts, rfl, areLambdas⟩
  generalize group.2 = overloads at areLambdas notEmpty
  cases areLambdas with
  | nil => exact absurd rfl notEmpty
  | @cons _ alt _ _ isFirst =>
    obtain ⟨types, callee⟩ := alt
    obtain ⟨rfl, _⟩ := isFirst
    rw [export?, found]

/-- What is exported under the names of a module. -/
def AreExports (bindings : Bindings)
    (payload : Value) : List (String × List Overload) → Bindings → Prop :=
  Forall₂ fun group exported =>
    exported.1 = group.1 ∧
      ∃ callee, exported.2 = .function callee ∧ IsExport bindings payload group callee

theorem AreExports.names {exports : Bindings}
    (areExports : AreExports bindings payload groups exports) :
    exports.map (·.1) = groups.map (·.1) := by
  induction areExports with
  | nil => rfl
  | cons isExport _ ih => rw [List.map_cons, List.map_cons, ih, isExport.1]

/-- The object of the entries of all functions is exported name by name. -/
theorem exportsOf_record {value : String × List Overload → Value}
    (areWords : ∀ group ∈ groups, Token.IsWord group.1.toList)
    (notEmpty : ∀ group ∈ groups, group.2 ≠ [])
    (areValues : ∀ group ∈ groups, IsGroupValue bindings payload group (value group)) :
    let record : Value := .record (groups.map fun group => (.text group.1, value group))
    record.unmarked = .ok record ∧ AreExports bindings payload groups (exportsOf record) := by
  constructor
  · apply unmarked_record
    · rw [List.forall_mem_map]
      exact fun group mem => (export?_of_isGroupValue (notEmpty group mem) (areValues group mem)).1
    · rw [Entries.find?, List.lookup_eq_none_iff, List.forall_mem_map]
      intro group mem
      have isWord := areWords group mem
      refine bne_iff_ne.mpr fun same => ?_
      rw [← Key.text.inj same] at isWord
      exact absurd isWord (by decide)
  · induction groups with
    | nil => exact .nil
    | cons group _ ih =>
      rw [List.forall_mem_cons] at areWords notEmpty areValues
      obtain ⟨_, callee, isExported, isExport⟩ := export?_of_isGroupValue notEmpty.1 areValues.1
      have exported (others : Entries) :
          exportsOf (.record ((.text group.1, value group) :: others)) =
            (group.1, .function callee) :: exportsOf (.record others) := by
        simp [exportsOf, isExported, Key.shown]
      rw [List.map_cons, exported]
      exact .cons ⟨rfl, callee, rfl, isExport⟩ (ih areWords.2 notEmpty.2 areValues.2)

/-- The script of functions that can be put together exports all of them. -/
theorem runSource_scriptOf (areGrouped : AreGrouped groups) (arePasteable : ArePasteable groups)
    (endPlain : ∀ group ∈ groups, ∀ overload ∈ group.2, Text.EndsPlain overload.body.toList)
    (session : Session) (ambient : Ambient) :
    ∃ exports after,
      (runSource session ambient (scriptOf groups)).result = .ok (exports, after) ∧
        AreExports coreVariables (.record []) groups exports := by
  obtain ⟨decls, body, declare, viewed, isRead⟩ := parse_scriptOf arePasteable endPlain
  obtain ⟨bindings, declared, held⟩ :=
    declareVariables_groups declare areGrouped.distinct arePasteable.areLambdas
      arePasteable.plainTypes session ambient (.record []) coreVariables
  let header : Header := { Header.plain with bindings := decls.flatten }
  let job : Job := ⟨scriptOf groups, .record [], coreVariables, true⟩
  let ctx : Context := ⟨.record [], bindings, Session.bodyLineOffset (scriptOf groups)⟩
  choose! value isBound areValues using held
  have isPlain (group) (isGroup : group ∈ groups) :
      Text.cutAt? interpolationMark group.1.toList = none := by
    refine Text.cutAt?_eq_none_of_not_mem (fun mem => ?_) _
    exact absurd ((arePasteable.areWords group isGroup).parts _ mem) (by decide)
  have evals :=
    @Leaves.object _ (session.setting ambient ⟨.record [], bindings⟩) ctx 1998 groups (·.1) _ value
      (fun group mem =>
        ⟨isPlain group mem, .doubled (isDoubled_overloadsName group.1) (isBound group mem)⟩)
      areGrouped.distinct body viewed
  obtain ⟨isUnmarked, areExports⟩ :=
    exportsOf_record arePasteable.areWords areGrouped.notEmpty areValues
  let entries : Entries := groups.map fun group => (.text group.1, value group)
  have isEntered : (session.bodyContext ambient [] header job).result = .ok ctx :=
    Outcome.result_bind_of_ok declared _
  have isValue : (session.bodyValue ambient job body ctx).result = .ok (.record entries) :=
    Outcome.result_tryCatch_of_ok evals _
  have isDelivered : Session.delivered header job (.record entries) = .ok (.record entries) :=
    isUnmarked
  have isRun :
      (session.runScript ambient [] ⟨header, body⟩ job).result =
        .ok (.record entries, ⟨session.frames ++ [⟨.record [], bindings⟩]⟩) := by
    rw [Session.runScript_eq, Outcome.result_bind_of_ok isEntered,
      Outcome.result_bind_of_ok isValue, isDelivered]
    rfl
  have isParsed : Session.parse (scriptOf groups) = .ok ⟨header, body⟩ := by
    rw [Session.parse, isRead]
  refine ⟨exportsOf (.record entries), ⟨session.frames ++ [⟨.record [], bindings⟩]⟩, ?_, areExports⟩
  apply Outcome.result_tryCatch_of_ok
  rw [Session.runAlone, isParsed]
  exact Outcome.result_bind_of_ok isRun _

/-- The script of a module exports all functions that are kept.  It is put together from the kept
functions under their names; if they can be put together, it can be read, its body has a field for
each name, and running it exports a function under each name that chooses among all functions kept
under it.  A function whose parameters are words is read as a lambda, since its body is read
alone. -/
theorem exports_all_kept {source text : String} (isRewritten : toScript? source = .ok (some text)) :
    ∃ groups,
      gathered (functionsOf source) = .ok groups ∧ text = scriptOf groups ∧
        (groups.map (·.1)).Nodup ∧ (∀ name overload,
          Gathers groups name overload ↔
            ∃ function ∈ functionsOf source, function.IsKept name overload) ∧
        (∀ name overload, Gathers groups name overload →
          (∀ parameter ∈ overload.parameters, Token.IsWord parameter.1.toList) →
            ∃ inner,
              Expr.parse overload.lambdaText =
                .ok (.lambda (overload.parameters.map fun parameter => .plain parameter.1)
                  inner)) ∧
        (ArePasteable groups → (∃ header fields,
            Script.parse text.toList = .ok ⟨header, .object fields⟩ ∧
              fields.map (·.1) = groups.map fun group => .text group.1) ∧
          ∀ session ambient, ∃ exports after,
            (runSource session ambient text).result = .ok (exports, after) ∧
              AreExports coreVariables (.record []) groups exports) := by
  rw [toScript?, except_bind_eq_ok] at isRewritten
  obtain ⟨groups, isGathered, isScript⟩ := isRewritten
  obtain ⟨areGrouped, gathers⟩ := gathers_iff_of_gathered isGathered
  have isText : text = scriptOf groups := by
    have chosen := Except.ok.inj isScript
    split at chosen
    · cases chosen
    · exact (Option.some.inj chosen).symm
  have areReadable {name : String} {overload : Overload} (isOne : Gathers groups name overload) :
      overload.IsReadable := by
    obtain ⟨function, _, _, isKept⟩ := (gathers name overload).mp isOne
    exact Overload.isReadable_of_overload? isKept
  have endPlain :
      ∀ group ∈ groups, ∀ overload ∈ group.2, Text.EndsPlain overload.body.toList :=
    fun group isGroup overload isOverload =>
      (areReadable ⟨group.2, isGroup, isOverload⟩).endsPlain
  refine ⟨groups, isGathered, isText, areGrouped.distinct, gathers, ?_, fun arePasteable => ?_⟩
  · intro name overload isOne areWords
    obtain ⟨expr, bodyRead⟩ := (areReadable isOne).isRead
    have namesAreWords :
        ∀ name ∈ overload.parameters.map (·.1), Token.IsWord name.toList := by
      simpa using areWords
    obtain ⟨inner, isRead, _⟩ := Expr.parse_lambdaText namesAreWords bodyRead
    refine ⟨inner, ?_⟩
    rw [Overload.lambdaText, isRead, List.map_map]
    rfl
  · subst isText
    constructor
    · obtain ⟨declarations, body, _, viewed, isRead⟩ := parse_scriptOf arePasteable endPlain
      obtain ⟨fields, rfl, sameFields⟩ := Expr.eq_object_of_placeless viewed
      refine ⟨_, fields, isRead, ?_⟩
      rw [← List.forall₂_eq_eq_eq, List.forall₂_map_left_iff, List.forall₂_map_right_iff]
      exact forall₂_of_map_eq sameFields fun field group _ looks =>
        Expr.eq_text_of_placeless (Prod.mk.inj looks).1
    · exact fun session ambient =>
        runSource_scriptOf areGrouped arePasteable endPlain session ambient

/-- A module of two functions. -/
def sample : String := "fun id(x: Any) = x\nfun odd(y) = \"--\"\n"

/-- The functions of the module under their names. -/
def sampleGroups : List (String × List Overload) :=
  [("id", [⟨[("x", some "Any")], "x"⟩]), ("odd", [⟨[("y", none)], "\"--\""⟩])]

theorem exports_all_kept_sample :
    toScript? sample = .ok (some (scriptOf sampleGroups)) ∧ ArePasteable sampleGroups ∧
      ∀ session ambient, ∃ exports after,
        (runSource session ambient (scriptOf sampleGroups)).result = .ok (exports, after) ∧
          exports.map (·.1) = ["id", "odd"] := by
  have isGathered : gathered (functionsOf sample) = .ok sampleGroups := by cbv
  have isRewritten : toScript? sample = .ok (some (scriptOf sampleGroups)) := by
    rw [toScript?]
    exact except_bind_eq_ok.mpr ⟨sampleGroups, isGathered, rfl⟩
  obtain ⟨groups, foundGroups, _, _, _, areLambdas, ofPasteable⟩ := exports_all_kept isRewritten
  obtain rfl := Except.ok.inj (isGathered.symm.trans foundGroups)
  have haveWords :
      ∀ group ∈ sampleGroups, ∀ overload ∈ group.2, ∀ parameter ∈ overload.parameters,
        Token.IsWord parameter.1.toList := by
    decide
  have arePasteable : ArePasteable sampleGroups := by
    constructor
    · decide
    · intro group isGroup overload isOverload
      obtain ⟨inner, isRead⟩ :=
        areLambdas group.1 overload ⟨group.2, isGroup, isOverload⟩
          (haveWords group isGroup overload isOverload)
      exact ⟨_, inner, isRead⟩
    · unfold Overload.HasPlainTypes
      decide
    · decide +kernel
    · decide +kernel
  refine ⟨isRewritten, arePasteable, fun session ambient => ?_⟩
  obtain ⟨exports, after, isRun, areExports⟩ := (ofPasteable arePasteable).2 session ambient
  exact ⟨exports, after, isRun, areExports.names⟩

end Module

end Weave
