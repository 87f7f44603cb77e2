import Mathlib
import Weave.Proofs.Eval.Engine
import Weave.Proofs.Expr.Fill
import Weave.Proofs.Expr.Placeholder
import Weave.Proofs.Grammar.Written
import Weave.Proofs.Outcome.Alike
import Weave.Proofs.Value.Entries

namespace Weave

open List Bindings

/-!
# Placeholders and lambdas

An expression with placeholders in the place of a function means the lambda that names its
two parameters.  The two are called in different ways, so the argument goes through the
contexts in which their bodies are evaluated: what the placeholders stand for on one side,
the names of the parameters stand for on the other.
-/

variable {ctx : Context} {name : String} {level : Nat} {argument function : Expr}
  {arguments : List Expr}

/-- The name means nothing but what a parameter gives it. -/
structure IsFreshName (name : String) : Prop where
  notBuiltin : Builtin.named? name = none
  notReserved : name ∉ ["_binary_plus", "payload", "vars"]

namespace IsFreshName

variable {name : String}

theorem resolve (isFresh : IsFreshName name) (found : ctx.bindings.find? name = some value)
    (pos : Position) :
    ctx.resolve name pos = pure value := by
  have notReserved := isFresh.notReserved
  simp only [mem_cons, not_or] at notReserved
  simp [Context.resolve, notReserved, isFresh.notBuiltin, found]

end IsFreshName

/--
The node may stand in an expression whose placeholders are filled with two names: it is no lambda,
it does not mention the variables as a whole or one of the names, and a function that it calls is
given no placeholders to make a function of.
-/
def Expr.IsOpenNode (item place : String) : Expr → Prop
  | .lambda _ _ => False
  | .name word _ => word ∉ ["vars", item, place]
  | .matching _ cases =>
    ∀ case ∈ cases, ∀ pattern, case.pattern = some pattern →
      ∀ name, pattern.binding = some name → name ∉ [item, place]
  | .call (.name word _) (_ :: argument :: _) =>
    word ∈ takesPlaceholders → argument.All fun part => ¬ part.IsPlaceholder
  | _ => True

/-- The node can be filled, and is a second placeholder only if there is a second parameter. -/
structure Expr.IsFillable (item place : String) (usesPlace : Bool) (expr : Expr) : Prop where
  written : expr.IsWrittenNode
  allowed : expr.IsOpenNode item place
  level : ∀ position, expr = .placeholder 2 position → usesPlace = true

/-- The placeholders of the expression can be filled. -/
abbrev Expr.IsOpen (item place : String) (usesPlace : Bool) : Expr → Prop :=
  Expr.All (IsFillable item place usesPlace)

/-- What the placeholders stand for in one context, the names stand for in the other. -/
structure Context.Filled (item place : String) (usesPlace : Bool)
    (left right : Context) : Prop where
  payload : left.payload = right.payload
  lineOffset : left.lineOffset = right.lineOffset
  forItem :
    ∃ value, left.bindings.find? "$" = some value ∧ right.bindings.find? item = some value
  forPlace :
    usesPlace = true →
      ∃ value, left.bindings.find? "$$" = some value ∧ right.bindings.find? place = some value
  others :
    ∀ word, isName word → word ∉ [item, place] →
      left.bindings.find? word = right.bindings.find? word

/-- The engine evaluates an expression and the filled expression alike. -/
def Engine.Fills (item place : String) (usesPlace : Bool) (engine : Engine) : Prop :=
  ∀ left right expr,
    Context.Filled item place usesPlace left right →
      expr.IsOpen item place usesPlace →
        (engine.eval left expr).Alike (engine.eval right (expr.fill item place))

section Filling

variable {item place : String} {usesPlace : Bool} {left right : Context} {engine : Engine}

/-! ## Contexts -/

theorem isName_ne_placeholder (named : isName name) : name ≠ "$" ∧ name ≠ "$$" := by
  constructor
  · rintro rfl
    exact dollar_not_mem named (by decide)
  · rintro rfl
    exact dollar_not_mem named (by decide)

namespace Context.Filled

/-- A case that binds another name leaves the placeholders and the names alone. -/
theorem set (filled : Filled item place usesPlace left right) (named : isName name)
    (isOther : name ∉ [item, place]) (value : Value) :
    Filled item place usesPlace ⟨left.payload, left.bindings.set name value, 0⟩
      ⟨right.payload, right.bindings.set name value, 0⟩ := by
  obtain ⟨notItemSign, notPlaceSign⟩ := isName_ne_placeholder named
  simp only [mem_cons, not_mem_nil, not_or, or_false] at isOther
  refine ⟨filled.payload, rfl, ?_, ?_, ?_⟩
  · simpa [find?_set, Ne.symm notItemSign, Ne.symm isOther.1] using filled.forItem
  · simpa [find?_set, Ne.symm notPlaceSign, Ne.symm isOther.2] using filled.forPlace
  · intro word wordNamed wordIsOther
    simp only [find?_set]
    split
    · rfl
    · exact filled.others word wordNamed wordIsOther

theorem bound (filled : Filled item place usesPlace left right)
    (isOther : ∀ name, binding = some name → isName name ∧ name ∉ [item, place]) (value : Value) :
    Filled item place usesPlace (Eval.bound left binding value)
      (Eval.bound right binding value) := by
  unfold Eval.bound
  split
  · exact filled
  · exact filled
  · rename_i name _
    obtain ⟨named, notFilled⟩ := isOther name rfl
    exact filled.set named notFilled value

theorem resolve (filled : Filled item place usesPlace left right) (named : isName word)
    (isOther : word ∉ ["vars", item, place]) (pos : Position) :
    left.resolve word pos = right.resolve word pos := by
  rw [mem_cons, not_or] at isOther
  simp only [Context.resolve, filled.payload, filled.lineOffset, isOther.1, beq_iff_eq, if_false,
    filled.others word named isOther.2]

theorem placeholder (filled : Filled item place usesPlace left right) (itemFresh : IsFreshName item)
    (placeFresh : IsFreshName place)
    (isOpen : (Expr.placeholder level pos).IsOpen item place usesPlace) :
    left.placeholder level pos = right.resolve (if level = 1 then item else place) pos := by
  have isLevel := isOpen.here.written
  rcases isLevel with rfl | rfl
  · obtain ⟨value, leftFound, rightFound⟩ := filled.forItem
    simp [Context.placeholder, Context.placeholderName, leftFound, itemFresh.resolve rightFound pos]
  · obtain ⟨_, leftFound, rightFound⟩ := filled.forPlace (isOpen.here.level _ rfl)
    simp [Context.placeholder, Context.placeholderName, leftFound,
      placeFresh.resolve rightFound pos]

end Context.Filled

/-! ## One node -/

namespace Engine.Fills

variable (fills : engine.Fills item place usesPlace)
  (filled : Context.Filled item place usesPlace left right)

include fills filled

theorem fields (areOpen : ∀ pair ∈ pairs,
      pair.1.IsOpen item place usesPlace ∧ pair.2.IsOpen item place usesPlace)
    (entries : Entries) : (Eval.fields engine left entries pairs).Alike
      (Eval.fields engine right entries (Expr.fillFields item place pairs)) := by
  induction pairs generalizing entries with
  | nil => exact .refl _
  | cons pair _ ih =>
    obtain ⟨keyOpen, valueOpen⟩ := areOpen pair mem_cons_self
    have restOpen := (forall_mem_cons.mp areOpen).2
    refine (fills left right pair.1 filled keyOpen).bind fun keyValue => ?_
    refine (Outcome.Alike.refl _).bind fun key => ?_
    refine (fills left right pair.2 filled valueOpen).bind fun value => ?_
    exact ih restOpen _

theorem cases {alts : List (MatchCase Expr)} (isOther :
      ∀ case ∈ alts, ∀ pattern, case.pattern = some pattern →
        ∀ name, pattern.binding = some name → isName name ∧ name ∉ [item, place])
    (areOpen :
      ∀ case ∈ alts, ∀ expr, Expr.IsInCase case expr → expr.IsOpen item place usesPlace)
    (value : Value) : (Eval.cases engine left value alts).Alike
      (Eval.cases engine right value (Expr.fillCases item place alts)) := by
  induction alts with
  | nil => exact .refl _
  | cons first _ ih =>
    rw [forall_mem_cons] at isOther areOpen
    have later := ih isOther.2 areOpen.2
    obtain ⟨pattern, result⟩ := first
    have resultOpen := areOpen.1 result .result
    cases pattern with
    | none => exact fills left right result filled resultOpen
    | some pattern =>
      obtain ⟨binding, matcher, guard⟩ := pattern
      -- The guard and the result see the bound value, the matcher does not.
      have inner := filled.bound (isOther.1 _ rfl) value
      have meets :
          (Eval.meets engine left value matcher).Alike
            (Eval.meets engine right value (Expr.fillOption item place matcher)) := by
        cases matcher with
        | none => exact .refl _
        | some matcher =>
          exact (fills left right matcher filled
            (areOpen.1 matcher (.matcher rfl rfl))).bind fun _ => .refl _
      have passes :
          (Eval.passes engine (Eval.bound left binding value) guard).Alike
            (Eval.passes engine (Eval.bound right binding value)
              (Expr.fillOption item place guard)) := by
        cases guard with
        | none => exact .refl _
        | some guard =>
          exact (fills _ _ guard inner (areOpen.1 guard (.guard rfl rfl))).bind fun _ => .refl _
      refine meets.bind fun isMet => ?_
      cases isMet with
      | false => exact later
      | true =>
        refine passes.bind fun isPassed => ?_
        cases isPassed with
        | false => exact later
        | true => exact fills _ _ result inner resultOpen

omit fills filled in
theorem not_isImplicitFunction (isOpen : (Expr.call function arguments).IsOpen item place usesPlace)
    (mem : (argument, index) ∈ arguments.zipIdx) :
    function.isImplicitFunction argument index = false := by
  cases function with
  | name word =>
    by_cases isSecond : index = 1
    · subst isSecond
      have isArgument : arguments[1]? = some argument := by
        simpa using mem_zipIdx_iff_getElem?.mp mem
      match arguments, isArgument with
      | first :: _ :: others, rfl =>
        have allowed := isOpen.here.allowed
        by_cases takes : word ∈ Expr.takesPlaceholders
        · have notFound : ¬ argument.hasPlaceholder (fun _ => true) :=
            Expr.not_hasPlaceholder (allowed takes)
          cases argument <;> simp_all [Expr.isImplicitFunction]
        · cases argument <;> simp [Expr.isImplicitFunction, takes]
    · cases argument <;> simp [Expr.isImplicitFunction, isSecond]
  | _ => cases argument <;> rfl

omit fills filled in
theorem not_isImplicitFunction_fill (function argument : Expr) (index : Nat) :
    function.isImplicitFunction (argument.fill item place) index = false := by
  unfold Expr.isImplicitFunction
  split
  · rfl
  · rw [Expr.hasPlaceholder_fill, Bool.and_false]
  · rfl

theorem call (isOpen : (Expr.call function arguments).IsOpen item place usesPlace) :
    (Eval.call engine left function arguments).Alike
      (Eval.call engine right (function.fill item place) (Expr.fillAll item place arguments)) := by
  refine (fills left right function filled (isOpen.child .callee)).bind fun callee => ?_
  have values :
      (Outcome.each (Eval.argument engine left function) arguments.zipIdx).Alike
        (Outcome.each (Eval.argument engine right (function.fill item place))
          (Expr.fillAll item place arguments).zipIdx) := by
    refine .each ?_
    rw [Expr.fillAll_eq_map, zipIdx_map, forall₂_map_right_iff, forall₂_same]
    rintro ⟨argument, _⟩ mem
    have isArgument : argument ∈ arguments := (mem_zipIdx mem).2.2 ▸ getElem_mem _
    simp only [Eval.argument, not_isImplicitFunction isOpen mem, Prod.map,
      not_isImplicitFunction_fill]
    exact fills left right argument filled (isOpen.child (.argument isArgument))
  refine values.bind fun values => ?_
  cases callee with
  | function => exact .refl _
  | _ => exact .fault (.notCallable _ _)

/-- One step evaluates an expression and the filled expression alike. -/
theorem step (itemFresh : IsFreshName item) (placeFresh : IsFreshName place) {expr : Expr}
    (isOpen : expr.IsOpen item place usesPlace) :
    (Eval.step engine left expr).Alike (Eval.step engine right (expr.fill item place)) := by
  have evals {inner : Expr} (isChild : Expr.IsChild inner expr) :=
    fills left right inner filled (isOpen.child isChild)
  cases expr with
  | object =>
    refine (fills.fields filled (fun pair mem => ?_) []).bind fun _ => .refl _
    exact ⟨isOpen.child (.key mem), isOpen.child (.value mem)⟩
  | list =>
    rw [Expr.fill, Expr.fillAll_eq_map]
    refine Outcome.Alike.bind (.each ?_) fun _ => .refl _
    rw [forall₂_map_right_iff, forall₂_same]
    exact fun element mem => evals (.element mem)
  | text =>
    have isPlain := isOpen.here.written
    rw [Expr.fill, Eval.step_text_of_plain isPlain, Eval.step_text_of_plain isPlain]
    exact .refl _
  | template =>
    rw [Expr.fill, Expr.fillAll_eq_map]
    refine Outcome.Alike.bind (.each ?_) fun _ => .refl _
    rw [forall₂_map_right_iff, forall₂_same]
    exact fun part mem => (evals (.part mem)).bind fun _ => .refl _
  | number value | boolean value | null => exact .refl _
  | name _ pos =>
    exact .of_eq (filled.resolve isOpen.here.written isOpen.here.allowed pos)
  | placeholder => exact .of_eq (filled.placeholder itemFresh placeFresh isOpen)
  | property => exact (evals .base).bind fun _ => .refl _
  | index =>
    exact (evals .indexed).bind fun _ => (evals .place).bind fun _ => .refl _
  | call => exact fills.call filled isOpen
  | orElse =>
    refine (evals .left).bind fun value => ?_
    cases value with
    | null => exact evals .right
    | _ => exact .refl _
  | conditional =>
    refine (evals .condition).bind fun test => ?_
    cases test.isTruthy with
    | true => exact evals .whenTrue
    | false => exact evals .whenFalse
  | lambda => exact isOpen.here.allowed.elim
  | matching =>
    refine (evals .subject).bind fun value => fills.cases filled ?_ ?_ value
    · intro case mem pattern isPattern name isBinding
      exact ⟨isOpen.here.written case mem pattern isPattern name isBinding,
        isOpen.here.allowed case mem pattern isPattern name isBinding⟩
    · exact fun case mem expr isIn => isOpen.child (.inCase mem isIn)
  | coercion _ _ options =>
    refine (evals .coerced).bind fun result => ?_
    cases options with
    | none => exact .refl _
    | some => exact (evals .options).bind fun _ => .refl _

end Engine.Fills

/-- Every engine evaluates an expression and the filled expression alike. -/
theorem Engine.fills_upTo (itemFresh : IsFreshName item) (placeFresh : IsFreshName place)
    (setting : Setting) (depth : Nat) : (Engine.upTo setting depth).Fills item place usesPlace := by
  induction depth with
  | zero => exact fun _ _ _ _ _ => .refl _
  | succ _ ih =>
    exact fun left right expr filled isOpen =>
      ih.step filled itemFresh placeFresh isOpen

/-! ## The two functions -/

theorem find?_standFor_of_found {locals : Bindings} (isFound : locals.find? name = some found)
    (level : Nat) (param : Option (Parameter Expr)) :
    (Call.standFor level param locals).find? name = some found := by
  unfold Call.standFor
  split
  · exact find?_setNew_of_found isFound _ _
  · exact isFound

theorem find?_standFor_of_ne (differs : name ≠ Context.placeholderName level)
    (param : Option (Parameter Expr)) (locals : Bindings) :
    (Call.standFor level param locals).find? name = locals.find? name := by
  unfold Call.standFor
  split
  · exact find?_setNew_of_ne differs _ _
  · rfl

/-- The function that names the two parameters of an expression with placeholders. -/
def Function.explicit (item place : String) (body : Expr) (captured : Bindings)
    (payload : Value) : Function :=
  .lambda [⟨item, none, none⟩, ⟨place, none, none⟩] (body.fill item place) captured payload

/-- The bodies of both functions are evaluated where placeholders and parameters agree. -/
theorem Context.Filled.of_call (distinct : item ≠ place) (captured : Bindings)
    (payload first : Value) (isGiven : usesPlace → given = second) :
    Context.Filled item place usesPlace ⟨payload, (captured.set "$" first).set "$$" given, 0⟩
      ⟨payload,
        Call.standFor 2 (some ⟨place, none, none⟩)
          (Call.standFor 1 (some ⟨item, none, none⟩)
            ((captured.set item first).set place second)), 0⟩ := by
  refine ⟨rfl, rfl, ⟨first, ?_, ?_⟩, ?_, ?_⟩
  · simp [find?_set]
  · refine find?_standFor_of_found (find?_standFor_of_found ?_ _ _) _ _
    simp [find?_set, distinct]
  · intro uses
    refine ⟨given, ?_, ?_⟩
    · simp [find?_set]
    · refine find?_standFor_of_found (find?_standFor_of_found ?_ _ _) _ _
      simp [find?_set, isGiven uses]
  · intro word named isOther
    obtain ⟨notItemSign, notPlaceSign⟩ := isName_ne_placeholder named
    simp only [mem_cons, not_or] at isOther
    rw [find?_standFor_of_ne notPlaceSign, find?_standFor_of_ne notItemSign]
    simp [find?_set, notItemSign, notPlaceSign, isOther]

/-- Called with an item and its place, both functions do the same. -/
theorem invokeOrKeep_alike (itemFresh : IsFreshName item) (placeFresh : IsFreshName place)
    (distinct : item ≠ place) {body : Expr} (isOpen : body.IsOpen item place usesPlace)
    (setting : Setting) (depth : Nat) (captured : Bindings) (payload : Value)
    (numbered : Value × Nat) : (Core.invokeOrKeep (Engine.upTo setting depth).call
        (.function (.implicit body captured payload usesPlace)) (Core.numbered numbered)).Alike
      (Core.invokeOrKeep (Engine.upTo setting depth).call
        (.function (.explicit item place body captured payload)) (Core.numbered numbered)) := by
  cases depth with
  | zero => exact .refl _
  | succ depth =>
    have fills : (Engine.upTo setting depth).Fills item place usesPlace :=
      Engine.fills_upTo itemFresh placeFresh setting depth
    -- A function without the second placeholder is not given the place.
    cases usesPlace with
    | true =>
      exact fills _ _ body (.of_call distinct captured payload numbered.1 fun _ => rfl) isOpen
    | false => exact fills _ _ body (.of_call distinct captured payload numbered.1 nofun) isOpen

/-- The operators that call a function with every item of a sequence and its place. -/
def sequenceOperators : List Builtin := [.mapItems, .filterItems, .flatMapItems, .distinctItems]

/-- An operator on a sequence cannot tell functions apart that do the same with every item. -/
theorem run_alike {builtin : Builtin} (isOperator : builtin ∈ sequenceOperators)
    (alike : ∀ numbered,
      (Core.invokeOrKeep call (.function leftCallee) (Core.numbered numbered)).Alike
        (Core.invokeOrKeep call (.function rightCallee) (Core.numbered numbered)))
    (ambient : Ambient) (sequence : Value) :
    (builtin.run ambient call [sequence, .function leftCallee]).Alike
      (builtin.run ambient call [sequence, .function rightCallee]) := by
  simp only [sequenceOperators, mem_cons, not_mem_nil, or_false] at isOperator
  rcases isOperator with rfl | rfl | rfl | rfl
  · refine (Outcome.Alike.refl _).bind fun items => ?_
    exact (Outcome.Alike.each_same alike items.zipIdx).bind fun _ => .refl _
  · refine (Outcome.Alike.refl _).bind fun items => ?_
    refine (Outcome.Alike.keep (fun numbered => ?_) items.zipIdx).bind fun _ => .refl _
    exact (alike numbered).bind fun _ => .refl _
  · refine (Outcome.Alike.refl _).bind fun items => ?_
    refine (Outcome.Alike.each_same (fun numbered => ?_) items.zipIdx).bind fun _ => .refl _
    exact (alike numbered).bind fun _ => .refl _
  · refine (Outcome.Alike.refl _).bind fun items => ?_
    exact (Outcome.Alike.distinctFrom alike [] items.zipIdx).bind fun _ => .refl _

theorem call_eq_of_second {function sequence : Expr} {callee : Function}
    (isPlain : function.isImplicitFunction sequence 0 = false)
    (isFunction : Eval.argument engine ctx function (argument, 1) = pure (.function callee)) :
    Eval.call engine ctx function [sequence, argument] =
      (do
        let called ← engine.eval ctx function
        let items ← engine.eval ctx sequence
        match called with
        | .function called => engine.call called [items, .function callee]
        | _ => throw (.mismatch (.notCallable function.describe))) := by
  have evals : Eval.argument engine ctx function (sequence, 0) = engine.eval ctx sequence := by
    simp [Eval.argument, isPlain]
  simp only [Eval.call, zipIdx_cons, zipIdx_nil, Outcome.each_cons, evals,
    isFunction, bind_assoc, pure_bind]
  rfl

end Filling

theorem named_of_sequenceOperators : ∀ builtin ∈ sequenceOperators,
      Builtin.named? builtin.name = some builtin ∧ builtin.name ∈ Expr.takesPlaceholders := by
  decide

/--
In every context, an operator on a sequence with an expression with placeholders does the same as
with the lambda that names the item and its place.
-/
theorem Expr.eval_implicit_alike_explicit (source : List Char) (whole body placeholder : Expr)
    (isRead : Expr.parse source = .ok whole) (isPart : body.IsPartOf whole)
    (isPlaceholder : placeholder.IsPlaceholder) (isInBody : placeholder.IsPartOf body)
    {item place : String} (itemFresh : IsFreshName item) (placeFresh : IsFreshName place)
    (distinct : item ≠ place) (allowed : body.All (IsOpenNode item place)) (builtin : Builtin)
    (isOperator : builtin ∈ sequenceOperators) (sequence : Expr) (setting : Setting)
    (context : Context) : ((Expr.binary builtin.name sequence body).eval setting context).Alike
      ((Expr.binary builtin.name sequence (.lambda [⟨item, none, none⟩, ⟨place, none, none⟩]
          (body.fill item place))).eval setting context) := by
  obtain ⟨isNamed, takes⟩ := named_of_sequenceOperators builtin isOperator
  have isPlain : (Expr.builtin builtin.name).isImplicitFunction sequence 0 = false := by
    cases sequence <;> simp [Expr.builtin, Expr.isImplicitFunction]
  have noLambda : body.All fun part => ¬ part.IsLambda := by
    refine allowed.imp fun part isOpenNode => ?_
    cases part with
    | lambda => exact isOpenNode.elim
    | _ => exact id
  have isOpen : body.IsOpen item place (body.hasPlaceholder (· == 2)) := by
    have areWritten := isPart _ (Expr.isWritten_of_parse isRead)
    refine (allowed.areParts fun _ inBody => inBody).imp fun part isPart => ?_
    refine ⟨(isPart _ areWritten).here, (isPart _ allowed).here, ?_⟩
    rintro position rfl
    by_contra notFound
    have notWanted := (isPart _ (all_not_wanted noLambda notFound)).here 2 position rfl
    cases notWanted
  have found : body.hasPlaceholder (fun _ => true) = true := by
    by_contra notFound
    have notThere := (isInBody _ (all_not_wanted noLambda notFound)).here
    cases placeholder with
    | placeholder level position => exact absurd (notThere level position rfl) (by decide)
    | _ => exact isPlaceholder
  have isImplicit : (Expr.builtin builtin.name).isImplicitFunction body 1 = true := by
    have notLambda := allowed.here
    cases body <;>
      simp_all [Expr.builtin, Expr.isImplicitFunction, IsOpenNode]
  unfold Expr.eval
  generalize Engine.depth = depth
  -- The call takes one level and the function that it is given takes another one.
  rcases depth with _ | _ | depth
  · exact .refl _
  · exact .refl _
  · have implicitArgument :
        Eval.argument (Engine.upTo setting (depth + 1)) context (.builtin builtin.name)
            (body, 1) =
          pure (.function (.implicit body context.bindings context.payload
            (body.hasPlaceholder (· == 2)))) := by
      simp [Eval.argument, isImplicit]
    have explicitArgument :
        Eval.argument (Engine.upTo setting (depth + 1)) context (.builtin builtin.name)
            (.lambda [⟨item, none, none⟩, ⟨place, none, none⟩] (body.fill item place), 1) =
          pure (.function (.explicit item place body context.bindings context.payload)) :=
      rfl
    simp only [Expr.binary, Engine.eval_call, call_eq_of_second isPlain implicitArgument,
      call_eq_of_second isPlain explicitArgument]
    refine (Outcome.Alike.refl _).bind_of_result fun called isCalled => ?_
    have resolved := Engine.resolve_of_eval isCalled
    rw [Context.resolve_of_named isNamed] at resolved
    obtain rfl := Except.ok.inj resolved
    refine (Outcome.Alike.refl _).bind fun items => ?_
    exact run_alike isOperator
      (invokeOrKeep_alike itemFresh placeFresh distinct isOpen setting depth _ _)
      setting.ambient items

/-- The sum of an item and its place, written with placeholders. -/
def Expr.itemPlusPlace : Expr :=
  .call (.name "_binary_plus" ⟨1, 16⟩) [.placeholder 1 ⟨1, 14⟩, .placeholder 2 ⟨1, 18⟩]

theorem Expr.eval_itemPlusPlace_alike :
    ((Expr.binary "_infix_map" (.name "payload" ⟨1, 1⟩) itemPlusPlace).eval ⟨⟨"", 0⟩, []⟩
        ⟨.array [.int 3, .int 4], [], 0⟩).Alike
      ((Expr.binary "_infix_map" (.name "payload" ⟨1, 1⟩)
        (.lambda [⟨"x", none, none⟩, ⟨"i", none, none⟩]
          (.call (.name "_binary_plus" ⟨1, 16⟩) [.name "x" ⟨1, 14⟩, .name "i" ⟨1, 18⟩]))).eval
        ⟨⟨"", 0⟩, []⟩ ⟨.array [.int 3, .int 4], [], 0⟩) := by
  have isRead : Expr.parse "payload map ($ + $$)".toList =
      .ok (.binary "_infix_map" (.name "payload" ⟨1, 1⟩) itemPlusPlace) := by cbv
  have isPart : itemPlusPlace.IsPartOf
      (.binary "_infix_map" (.name "payload" ⟨1, 1⟩) itemPlusPlace) :=
    fun _ all => all.child (.argument (by simp))
  have isInBody : (Expr.placeholder 1 ⟨1, 14⟩).IsPartOf itemPlusPlace :=
    fun _ all => all.child (.argument (by simp))
  have itemFresh : IsFreshName "x" := ⟨by decide, by decide⟩
  have placeFresh : IsFreshName "i" := ⟨by decide, by decide⟩
  have allowed : itemPlusPlace.All (IsOpenNode "x" "i") := by
    refine .call ?_ (.name (by simp [IsOpenNode])) ?_
    · exact fun takes => absurd takes (by decide)
    · simp only [List.forall_mem_cons]
      exact ⟨.placeholder trivial, .placeholder trivial, by simp⟩
  have isOperator : Builtin.mapItems ∈ sequenceOperators := by decide
  exact Expr.eval_implicit_alike_explicit "payload map ($ + $$)".toList
    (.binary "_infix_map" (.name "payload" ⟨1, 1⟩) itemPlusPlace) itemPlusPlace
    (.placeholder 1 ⟨1, 14⟩) isRead isPart trivial isInBody itemFresh placeFresh (by decide) allowed
    .mapItems isOperator (.name "payload" ⟨1, 1⟩) ⟨⟨"", 0⟩, []⟩ ⟨.array [.int 3, .int 4], [], 0⟩

end Weave
