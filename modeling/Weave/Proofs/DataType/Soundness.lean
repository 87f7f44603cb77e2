import Weave.Proofs.DataType.Inhabits
import Weave.Proofs.Eval.Engine
import Weave.Session

namespace Weave

open List Except

/-!
# Inferred types are right

On expressions without functions and selectors that search, the type that is inferred
for an expression is one of the value it is evaluated to.  For a script this goes
declaration by declaration: every variable of the header is of the type the inference
has bound to its name when the next one is evaluated.
-/

open DataType

variable {left right : Expr} {pairs : List (Expr × Expr)}

section

variable (functions : List String) (environment : Environment)

/--
Expressions of the first-order core: literals, the payload, variables that nothing hides, lists,
objects with plain keys, plain selectors, conditionals, defaults, matches that bind no variable,
equalities, concatenations, and sums of operands that are not both inferred as arrays.
-/
inductive Expr.IsCore : Expr → Prop
  | null : IsCore .null
  | boolean (value : Bool) : IsCore (.boolean value)
  | number (value : Float) : IsCore (.number value)
  | text (value : String) : IsCore (.text value)
  | template (parts : List Expr) : IsCore (.template parts)
  | payload (position : Position) : IsCore (.name "payload" position)
  | word {word : String} (notVars : word ≠ "vars") (notSum : word ≠ "_binary_plus")
      (notBuiltin : Builtin.named? word = none) (notFunction : word ∉ functions)
      (position : Position) :
      IsCore (.name word position)
  | list {elements : List Expr} (areCore : ∀ element ∈ elements, IsCore element) :
      IsCore (.list elements)
  | object {fields : List (Expr × Expr)}
      (keys : ∀ field ∈ fields, ∃ name : String,
        field.1 = .text name ∧ Text.cutAt? interpolationMark name.toList = none)
      (areCore : ∀ field ∈ fields, IsCore field.2) :
      IsCore (.object fields)
  | property {base : Expr} (isCore : IsCore base) (name : String) (nullSafe : Bool) :
      IsCore (.property base (.key name) nullSafe)
  | conditional {condition whenTrue whenFalse : Expr} (conditionIsCore : IsCore condition)
      (trueIsCore : IsCore whenTrue) (falseIsCore : IsCore whenFalse) :
      IsCore (.conditional condition whenTrue whenFalse)
  | orElse {left right : Expr} (leftIsCore : IsCore left) (rightIsCore : IsCore right) :
      IsCore (.orElse left right)
  | matching {subject : Expr} {cases : List (MatchCase Expr)} (subjectIsCore : IsCore subject)
      (bindNothing :
        ∀ case ∈ cases, ∀ pattern, case.pattern = some pattern → pattern.binding = none)
      (matchersAreCore :
        ∀ case ∈ cases, ∀ pattern, case.pattern = some pattern →
          ∀ matcher, pattern.matcher = some matcher → IsCore matcher)
      (guardsAreCore :
        ∀ case ∈ cases, ∀ pattern, case.pattern = some pattern →
          ∀ guard, pattern.guard = some guard → IsCore guard)
      (resultsAreCore : ∀ case ∈ cases, IsCore case.result) :
      IsCore (.matching subject cases)
  | equality {left right : Expr} (leftIsCore : IsCore left) (rightIsCore : IsCore right)
      (position : Position) :
      IsCore (.call (.name "_binary_eq" position) [left, right])
  | concatenation {left right : Expr} (leftIsCore : IsCore left) (rightIsCore : IsCore right)
      (position : Position) :
      IsCore (.call (.name "_binary_concat" position) [left, right])
  | sum {left right : Expr} (leftIsCore : IsCore left) (rightIsCore : IsCore right)
      (notArrays : ¬ ∃ leftElement rightElement, infer environment left = .array leftElement ∧
        infer environment right = .array rightElement)
      (position : Position) :
      IsCore (.call (.name "_binary_plus" position) [left, right])

end

/-- The payload and the variables are of the types the inference knows. -/
structure Context.Fits (functions : List String) (context : Context)
    (environment : Environment) : Prop where
  payload : context.payload.Inhabits environment.payload
  bound :
    ∀ word type, word ∉ functions → environment.bound.lookup word = some type →
      ∃ value, context.bindings.find? word = some value ∧ value.Inhabits type

theorem DataType.inferAll_eq_map (env : Environment) (exprs : List Expr) :
    inferAll env exprs = exprs.map (infer env) := by
  induction exprs with
  | nil => rfl
  | cons _ _ ih => rw [inferAll, ih, map_cons]

theorem DataType.inferCases_eq_map (env : Environment) (cases : List (MatchCase Expr)) :
    inferCases env cases = cases.map fun case => infer env case.result := by
  induction cases with
  | nil => rfl
  | cons _ _ ih => rw [inferCases, ih, map_cons]

theorem Engine.plus_of_eval {setting : Setting} {ctx : Context} {pos : Position}
    {depth : Nat} {value : Value} (evals : ((upTo setting depth).eval ctx
        (.call (.name "_binary_plus" pos) [left, right])).result = .ok value) :
    ∃ shallower leftValue rightValue place,
      ((upTo setting shallower).eval ctx left).result = .ok leftValue ∧
        ((upTo setting shallower).eval ctx right).result = .ok rightValue ∧
        Core.plus leftValue rightValue place = .ok value := by
  obtain ⟨callee, shallower, leftValue, rightValue, resolved, leftEvaluated, rightEvaluated,
    called⟩ := call_of_eval_operator (by decide) evals
  obtain rfl : Function.plus (pos.line + ctx.lineOffset) pos.column = callee := by
    simpa [Context.resolve] using resolved
  obtain ⟨_, step⟩ := step_of_call called
  exact ⟨shallower, leftValue, rightValue, _, leftEvaluated, rightEvaluated, step⟩

/-- Whatever the expression is evaluated to is of its inferred type. -/
def Expr.IsSound (setting : Setting) (context : Context) (environment : Environment)
    (expr : Expr) : Prop :=
  ∀ depth value,
    ((Engine.upTo setting depth).eval context expr).result = .ok value →
      value.Inhabits (infer environment expr)

namespace Expr.IsSound

variable {setting : Setting} {ctx : Context} {env : Environment} {fns : List String}

theorem null : IsSound setting ctx env .null := by
  intro depth value evals
  obtain ⟨_, step⟩ := Engine.step_of_eval evals
  obtain rfl := ok.inj step
  exact .null

theorem boolean (truth : Bool) : IsSound setting ctx env (.boolean truth) := by
  intro depth value evals
  obtain ⟨_, step⟩ := Engine.step_of_eval evals
  obtain rfl := ok.inj step
  exact .boolean truth

theorem number (float : Float) : IsSound setting ctx env (.number float) := by
  intro depth value evals
  obtain ⟨_, step⟩ := Engine.step_of_eval evals
  obtain rfl := ok.inj step
  exact inhabits_ofNumber _

theorem text (written : String) : IsSound setting ctx env (.text written) := by
  intro depth value evals
  obtain ⟨_, step⟩ := Engine.step_of_eval evals
  simp only [Eval.step, Eval.template, Outcome.result_bind_eq_ok, Outcome.result_pure,
    ok.injEq] at step
  obtain ⟨_, _, rfl⟩ := step
  exact .text _

/-- A name that nothing hides is a variable, and its type is the one bound to it. -/
theorem word (fits : ctx.Fits fns env) {word : String} (notVars : word ≠ "vars")
    (notSum : word ≠ "_binary_plus") (notBuiltin : Builtin.named? word = none)
    (notFunction : word ∉ fns) (pos : Position) :
    IsSound setting ctx env (.name word pos) := by
  intro depth value evals
  have resolved := Engine.resolve_of_eval evals
  by_cases isPayload : word = "payload"
  · subst isPayload
    obtain rfl : ctx.payload = value := ok.inj resolved
    exact fits.payload
  · simp only [Context.resolve, beq_iff_eq, isPayload, notVars, notSum, notBuiltin,
      if_false] at resolved
    simp only [infer, Environment.lookup, beq_iff_eq, isPayload, notVars, if_false]
    cases isBound : env.bound.lookup word with
    | none => exact .any value
    | some type =>
      obtain ⟨present, found, inhabited⟩ := fits.bound word type notFunction isBound
      rw [found] at resolved
      obtain rfl : present = value := ok.inj resolved
      exact inhabited

theorem list {elements : List Expr}
    (areSound : ∀ element ∈ elements, IsSound setting ctx env element) :
    IsSound setting ctx env (.list elements) := by
  intro depth value evals
  obtain ⟨shallower, step⟩ := Engine.step_of_eval evals
  simp only [Eval.step, Outcome.result_bind_eq_ok, Outcome.result_each_eq_ok,
    Outcome.result_pure, ok.injEq] at step
  obtain ⟨_, computed, rfl⟩ := step
  simp only [infer, inferAll_eq_map]
  cases elements with
  | nil => exact .array fun item _ => .any item
  | cons =>
    refine .array fun item mem => ?_
    obtain ⟨_, bounded, rfl⟩ := getElem_of_mem mem
    have elementBounded := computed.length_eq ▸ bounded
    have isElement := getElem_mem elementBounded
    have itemInhabits := areSound _ isElement shallower _ (computed.get elementBounded bounded)
    exact inhabits_unionFrom (mem_map_of_mem isElement) itemInhabits

theorem fields (keys : ∀ pair ∈ pairs, ∃ name : String,
      pair.1 = .text name ∧ Text.cutAt? interpolationMark name.toList = none)
    (areSound : ∀ pair ∈ pairs, IsSound setting ctx env pair.2)
    (fills : Fills entries named) (evals :
      (Eval.fields (Engine.upTo setting depth) ctx entries pairs).result = .ok result) :
    Fills result (addFields named (inferFields env pairs)) := by
  induction pairs generalizing entries named with
  | nil =>
    obtain rfl : entries = result := ok.inj evals
    exact fills
  | cons pair _ ih =>
    obtain ⟨_, _⟩ := pair
    obtain ⟨name, rfl, isPlain⟩ := keys _ mem_cons_self
    simp only [Eval.fields, Outcome.result_bind_eq_ok] at evals
    obtain ⟨_, keyEvaluated, key, isKey, value, valueEvaluated, restEvaluated⟩ := evals
    obtain rfl := Engine.eq_of_eval_text isPlain keyEvaluated
    obtain rfl : Key.text name = key := ok.inj isKey
    have inhabited := areSound _ mem_cons_self depth value valueEvaluated
    -- A key that comes again replaces its value and widens its type.
    exact ih (forall_mem_cons.mp keys).2
      (forall_mem_cons.mp areSound).2 (fills.insert inhabited) restEvaluated

theorem object (keys : ∀ pair ∈ pairs, ∃ name : String,
      pair.1 = .text name ∧ Text.cutAt? interpolationMark name.toList = none)
    (areSound : ∀ pair ∈ pairs, IsSound setting ctx env pair.2) :
    IsSound setting ctx env (.object pairs) := by
  intro depth value evals
  obtain ⟨_, step⟩ := Engine.step_of_eval evals
  simp only [Eval.step, Outcome.result_bind_eq_ok, Outcome.result_pure, ok.injEq] at step
  obtain ⟨_, computed, rfl⟩ := step
  exact (fields keys areSound .nil computed).inhabits _

theorem property {base : Expr} (isSound : IsSound setting ctx env base) (name : String)
    (nullSafe : Bool) :
    IsSound setting ctx env (.property base (.key name) nullSafe) := by
  intro depth value evals
  obtain ⟨shallower, step⟩ := Engine.step_of_eval evals
  simp only [Eval.step, Outcome.result_bind_eq_ok] at step
  obtain ⟨baseValue, baseEvaluated, picked⟩ := step
  exact inhabits_property (isSound shallower baseValue baseEvaluated) picked

theorem cases {alts : List (MatchCase Expr)} (bindNothing :
      ∀ case ∈ alts, ∀ pattern, case.pattern = some pattern → pattern.binding = none)
    (areSound : ∀ case ∈ alts, IsSound setting ctx env case.result)
    {depth : Nat} {subject value : Value} (evals :
      (Eval.cases (Engine.upTo setting depth) ctx subject alts).result = .ok value) :
    value = .null ∨ ∃ case ∈ alts, value.Inhabits (infer env case.result) := by
  induction alts with
  | nil => exact .inl (ok.inj evals).symm
  | cons first rest ih =>
    obtain ⟨pattern?, result⟩ := first
    have resultIsSound := areSound _ mem_cons_self depth value
    have later
        (restEvaluated :
          (Eval.cases (Engine.upTo setting depth) ctx subject rest).result = .ok value) :
        value = .null ∨ ∃ case ∈ ⟨pattern?, result⟩ :: rest,
          value.Inhabits (infer env case.result) := by
      have inductionResult :=
        ih (forall_mem_cons.mp bindNothing).2 (forall_mem_cons.mp areSound).2 restEvaluated
      rcases inductionResult with isNull | ⟨case, mem, inhabited⟩
      · exact .inl isNull
      · exact .inr ⟨case, .tail _ mem, inhabited⟩
    cases pattern? with
    | none => exact .inr ⟨_, mem_cons_self, resultIsSound evals⟩
    | some pattern =>
      have noBinding := bindNothing _ mem_cons_self pattern rfl
      simp only [Eval.cases, noBinding, Eval.bound, Outcome.result_bind_eq_ok] at evals
      obtain ⟨_, _, chosen⟩ := evals
      split at chosen
      · obtain ⟨_, _, chosen⟩ := Outcome.result_bind_eq_ok.mp chosen
        split at chosen
        · exact .inr ⟨_, mem_cons_self, resultIsSound chosen⟩
        · exact later chosen
      · exact later chosen

end Expr.IsSound

/-- The type that is inferred for an expression of the core is right. -/
theorem Expr.IsCore.isSound {expr : Expr} {ctx : Context}
    (isCore : expr.IsCore fns env) (fits : ctx.Fits fns env) (setting : Setting) :
    expr.IsSound setting ctx env := by
  induction isCore with
  | null => exact .null
  | boolean truth => exact .boolean truth
  | number float => exact .number float
  | text written => exact .text written
  | template =>
    intro depth value evals
    obtain ⟨_, step⟩ := Engine.step_of_eval evals
    simp only [Eval.step, Outcome.result_bind_eq_ok, Outcome.result_pure, ok.injEq] at step
    obtain ⟨_, _, rfl⟩ := step
    exact .text _
  | payload =>
    intro depth value evals
    obtain rfl : ctx.payload = value := ok.inj (Engine.resolve_of_eval evals)
    exact fits.payload
  | word notVars notSum notBuiltin notFunction pos =>
    exact .word fits notVars notSum notBuiltin notFunction pos
  | list _ areSound => exact .list areSound
  | object keys _ areSound => exact .object keys areSound
  | property _ name nullSafe isSound => exact isSound.property name nullSafe
  | conditional _ _ _ _ trueIsSound falseIsSound =>
    intro depth value evals
    obtain ⟨shallower, step⟩ := Engine.step_of_eval evals
    simp only [Eval.step, Outcome.result_bind_eq_ok] at step
    obtain ⟨_, _, branch⟩ := step
    split at branch
    · exact inhabits_unionOf mem_cons_self (trueIsSound shallower value branch)
    · exact inhabits_unionOf (.tail _ (.head _)) (falseIsSound shallower value branch)
  | orElse _ _ leftIsSound rightIsSound =>
    intro depth value evals
    obtain ⟨shallower, step⟩ := Engine.step_of_eval evals
    simp only [Eval.step, Outcome.result_bind_eq_ok] at step
    obtain ⟨leftValue, leftEvaluated, chosen⟩ := step
    split at chosen
    · exact inhabits_unionOf (.tail _ (.head _)) (rightIsSound shallower value chosen)
    · obtain rfl : leftValue = value := ok.inj chosen
      exact inhabits_unionOf mem_cons_self (leftIsSound shallower leftValue leftEvaluated)
  | matching _ bindNothing _ _ _ _ _ _ areSound =>
    intro depth value evals
    obtain ⟨shallower, step⟩ := Engine.step_of_eval evals
    simp only [Eval.step, Outcome.result_bind_eq_ok] at step
    obtain ⟨_, _, chosen⟩ := step
    simp only [infer, inferCases_eq_map]
    rcases IsSound.cases bindNothing areSound chosen with rfl | ⟨case, mem, inhabited⟩
    · exact inhabits_unionFrom mem_cons_self .null
    · exact inhabits_unionFrom (.tail _ (mem_map_of_mem mem)) inhabited
  | equality =>
    intro depth value evals
    obtain ⟨callee, _, leftValue, rightValue, resolved, _, _, called⟩ :=
      Engine.call_of_eval_operator (by decide) evals
    obtain rfl := Value.function.inj (ok.inj resolved)
    obtain ⟨_, step⟩ := Engine.step_of_call called
    obtain rfl : Value.bool (leftValue == rightValue) = value := ok.inj step
    exact .boolean _
  | concatenation _ _ _ leftIsSound rightIsSound =>
    intro depth value evals
    obtain ⟨_, shallower, leftValue, rightValue, resolved, leftEvaluated, rightEvaluated,
      called⟩ := Engine.call_of_eval_operator (by decide) evals
    obtain rfl := Value.function.inj (ok.inj resolved)
    obtain ⟨_, step⟩ := Engine.step_of_call called
    exact inhabits_concatenation (leftIsSound shallower leftValue leftEvaluated)
      (rightIsSound shallower rightValue rightEvaluated) step
  | sum _ _ notArrays _ leftIsSound rightIsSound =>
    intro depth value evals
    obtain ⟨shallower, leftValue, rightValue, _, leftEvaluated, rightEvaluated, added⟩ :=
      Engine.plus_of_eval evals
    exact inhabits_sum (leftIsSound shallower leftValue leftEvaluated)
      (rightIsSound shallower rightValue rightEvaluated) notArrays added

/-! ## Scripts -/

/-- The names of the functions that a script declares. -/
def Script.functionNames (script : Script) : List String := script.header.functions.map (·.name)

/-- What is known of names once the functions of a script are declared. -/
def Script.functionTypes (script : Script) (payload vars : DataType) : Environment :=
  script.header.functions.foldl
    (fun environment declaration => environment.bind declaration.name (ofFunction declaration))
    ⟨payload, vars, []⟩

/-- What is known of names once variables are declared one after the other. -/
def DataType.Environment.declare (environment : Environment)
    (declarations : List VariableDecl) : Environment :=
  declarations.foldl
    (fun environment declaration =>
      environment.bind declaration.name (infer environment declaration.value))
    environment

/-- The values of all variables are expressions of the core where they stand. -/
def VariablesAreCore (functions : List String) : Environment → List VariableDecl → Prop
  | _, [] => True
  | environment, declaration :: rest =>
    declaration.value.IsCore functions environment ∧
      VariablesAreCore functions (environment.declare [declaration]) rest

/-- The variables and the body of a script are expressions of the core. -/
structure Script.IsCore (script : Script) (payload vars : DataType) : Prop where
  header :
    VariablesAreCore script.functionNames (script.functionTypes payload vars)
      script.header.bindings
  body :
    script.body.IsCore script.functionNames
      ((script.functionTypes payload vars).declare script.header.bindings)

namespace Context.Fits

variable {fns : List String} {env : Environment}

/-- The type of a function says nothing about the variables. -/
theorem bind {ctx : Context} (fits : ctx.Fits fns env)
    (isFunction : name ∈ fns) (type : DataType) :
    ctx.Fits fns (env.bind name type) := by
  refine ⟨fits.payload, ?_⟩
  intro word bound notFunction isBound
  have differs : word ≠ name := by
    rintro rfl
    exact notFunction isFunction
  simp only [Environment.bind, lookup_setPair, differs] at isBound
  exact fits.bound word bound notFunction isBound

/-- Before the first variable is declared only the payload has a type. -/
theorem functionTypes (script : Script) {payload : Value} (inhabited : payload.Inhabits payloadType)
    (vars : DataType) (bindings : Bindings) (lineOffset : Nat) :
    Fits script.functionNames ⟨payload, bindings, lineOffset⟩
      (script.functionTypes payloadType vars) := by
  have initial : Fits script.functionNames ⟨payload, bindings, lineOffset⟩
      ⟨payloadType, vars, []⟩ :=
    ⟨inhabited, by simp⟩
  have names : ∀ decl ∈ script.header.functions, decl.name ∈ script.functionNames :=
    fun _ mem => mem_map_of_mem mem
  unfold Script.functionTypes
  generalize script.header.functions = decls at names
  generalize Environment.mk payloadType vars [] = env at initial
  induction decls generalizing env with
  | nil => exact initial
  | cons decl _ ih =>
    exact ih (forall_mem_cons.mp names).2 _ (initial.bind (names decl mem_cons_self) _)

theorem declare {ctx : Context} (fits : ctx.Fits fns env)
    {decl : VariableDecl} {value : Value}
    (inhabited : value.Inhabits (infer env decl.value)) (lineOffset : Nat) :
    Fits fns ⟨ctx.payload, ctx.bindings.set decl.name value, lineOffset⟩
      (env.declare [decl]) := by
  refine ⟨fits.payload, ?_⟩
  intro word type notFunction isBound
  simp only [Environment.declare, foldl_cons, foldl_nil, Environment.bind,
    lookup_setPair] at isBound
  simp only [Bindings.find?_set]
  by_cases isDeclared : word = decl.name
  · simp only [isDeclared, if_true, Option.some.injEq] at isBound ⊢
    exact ⟨value, rfl, isBound ▸ inhabited⟩
  · simp only [isDeclared] at isBound ⊢
    exact fits.bound word type notFunction isBound

/-- All variables of a header fit once they are declared. -/
theorem declareVariables (session : Session) (ambient : Ambient)
    {payload : Value} {decls : List VariableDecl} {known bindings : Bindings}
    (areCore : VariablesAreCore fns env decls)
    (fits : Fits fns ⟨payload, known, 0⟩ env) (declared :
      (session.declareVariables ambient payload known decls).result = .ok bindings)
    (lineOffset : Nat) :
    Fits fns ⟨payload, bindings, lineOffset⟩ (env.declare decls) := by
  induction decls generalizing env known with
  | nil =>
    obtain rfl : known = bindings := ok.inj declared
    exact ⟨fits.payload, fits.bound⟩
  | cons _ _ ih =>
    simp only [Session.declareVariables, Outcome.result_bind_eq_ok] at declared
    obtain ⟨_, evals, restDeclared⟩ := declared
    have inhabited := areCore.1.isSound fits _ _ _ evals
    exact ih areCore.2 (fits.declare inhabited 0) restDeclared

end Context.Fits

/-- The body of a script of the core is evaluated to a value of the type of the script. -/
theorem Session.inhabits_ofScript (session : Session) (ambient : Ambient) (script : Script)
    (payloadType varsType : DataType) (payload : Value) (known bindings : Bindings)
    (lineOffset : Nat) {value : Value} (isCore : script.IsCore payloadType varsType)
    (inhabited : payload.Inhabits payloadType) (declared : (session.declareVariables ambient payload
          (script.header.functions.foldl (declareFunction session.frames.length) known)
          script.header.bindings).result = .ok bindings)
    (evals : (script.body.eval (session.setting ambient ⟨payload, bindings⟩)
          ⟨payload, bindings, lineOffset⟩).result = .ok value) :
    value.Inhabits (ofScript payloadType varsType script) := by
  have functionsFit :=
    Context.Fits.functionTypes script inhabited varsType
      (script.header.functions.foldl (declareFunction session.frames.length) known) 0
  have variablesFit :=
    functionsFit.declareVariables session ambient isCore.header declared lineOffset
  exact isCore.body.isSound variablesFit _ _ _ evals

/-- A script of the core: a variable made from the payload, as a field of an object. -/
def Script.greeting : Script where
  header :=
    { Header.plain with
      bindings :=
        [⟨"greeting", .binary "_binary_concat" (.text "Hello ")
          (.property (.name "payload" .nowhere) (.key "name") false)⟩] }
  body := .object [(.text "said", .name "greeting" .nowhere), (.text "size", .number 2)]

/-- The value of the greeting is of the type inferred for it. -/
theorem Session.greeting_inhabits :
    (Value.record [(.text "said", .text "Hello Ada"), (.text "size", .int 2)]).Inhabits
      (ofScript (.object [("name", .text)] false) .any .greeting) := by
  refine
    Session.inhabits_ofScript .fresh ⟨"", 0⟩ .greeting (.object [("name", .text)] false) .any
      (.record [(.text "name", .text "Ada")]) [] [("greeting", .text "Hello Ada")] 0
      ⟨⟨?_, trivial⟩, ?_⟩ ?_ rfl rfl
  · exact .concatenation (.text _) (.property (.payload _) _ _) _
  · refine .object ?_ ?_
    · simp only [List.forall_mem_cons]
      exact ⟨⟨"said", rfl, rfl⟩, ⟨"size", rfl, rfl⟩, by simp⟩
    · simp only [List.forall_mem_cons]
      exact ⟨.word (by decide) (by decide) (by decide) (by decide) _, .number 2, by simp⟩
  · refine .object (by decide) ?_ ?_
    · simp only [List.forall_mem_cons]
      refine ⟨?_, by simp⟩
      rintro _ found
      obtain rfl := Option.some.inj found
      exact .text "Ada"
    · exact fun _ => by simp

end Weave
