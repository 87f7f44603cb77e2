import Weave.Proofs.Eval.Engine
import Weave.Proofs.Eval.Sight

namespace Weave.Eval

open List

/-!
# Evaluations in which the same is seen

One node of an expression is evaluated in two contexts that show the same for what the expression
asks for.  If nested expressions and calls leave what looks the same, so does the node.
-/

variable {sight : Sight} {refuses : Fault → Prop}

theorem keyOf_onFunctions (change : Function → Function) (value : Value) :
    keyOf (value.onFunctions change) = keyOf value := by
  have same : (value.onFunctions change).interpolated = _ := Value.interpolated_onFunctions value
  cases value with
  | text => rfl
  | _ =>
    exact congrArg
      (fun (text : Except Fault String) => (do return .text (← text) : Except Fault Key)) same

/-- The parts that a selector names look the same. -/
theorem property_along (selector : Selector) (nullSafe : Bool) (same : sight.Same value other) :
    Alongside sight.Same (property value selector nullSafe) (property other selector nullSafe) := by
  have along := Likeness.select_along selector same
  unfold property
  generalize value.select selector = found, other.select selector = otherFound at along
  cases along with
  | ok same => exact .ok same
  | error =>
    change Alongside _ (if _ then _ else _) (if _ then _ else _)
    split
    · exact Likeness.scalar_along rfl
    · exact .error _

/-- The result of the first case that applies, whatever it means to meet what a case asks for. -/
def casesBy (meets : Value → Option Expr → Outcome Bool) (engine : Engine) (context : Context)
    (value : Value) :
    List (MatchCase Expr) → Outcome Value
  | [] => return .null
  | ⟨none, result⟩ :: _ => engine.eval context result
  | ⟨some pattern, result⟩ :: rest => do
    let inner := bound context pattern.binding value
    if ← meets value pattern.matcher then
      if ← passes engine inner pattern.guard then
        engine.eval inner result
      else
        casesBy meets engine context value rest
    else
      casesBy meets engine context value rest

theorem casesBy_meets (engine : Engine) (ctx : Context) (value : Value)
    (alts : List (MatchCase Expr)) :
    casesBy (meets engine ctx) engine ctx value alts =
      cases engine ctx value alts := by
  induction alts with
  | nil => rfl
  | cons case _ ih =>
    obtain ⟨pattern, _⟩ := case
    cases pattern with
    | none => rfl
    | some => simp only [casesBy, cases, ih]

section Engines

variable {left right : Engine} (engines : Engine.Follows refuses sight left right)
  {ctx other : Context}

include engines

/-! ## Texts, objects and calls -/

/-- The text of a piece of a template, which may ask for any variable. -/
theorem piece_follows (alike : ∀ lookups, sight.Contexts lookups ctx other) (part : TemplatePiece) :
    (piece left ctx part).Follows refuses Eq (piece right other part) := by
  cases part with
  | plain => exact .refl _
  | source text =>
    simp only [piece]
    cases isRead : Expr.parse text with
    | error => exact .throw _
    | ok expr =>
      simp only [parsed, pure_bind]
      refine .bind (engines.eval (sight.fine_parsed isRead) (alike expr.lookups))
        fun value otherValue same => ?_
      rw [Likeness.eq_of_kept (Value.embedded_onFunctions) same]
      exact .refl _

theorem template_follows (alike : sight.Contexts (Expr.lookups (.text text)) ctx other) :
    (template left ctx text).Follows refuses sight.Same (template right other text) := by
  by_cases isPlain : Text.cutAt? interpolationMark text.toList = none
  · have inLeft := step_text_of_plain isPlain left ctx
    have inRight := step_text_of_plain isPlain right other
    simp only [step] at inLeft inRight
    rw [inLeft, inRight]
    exact Likeness.scalar_follows rfl
  · have isAll : Lookup.all ∈ Expr.lookups (.text text) := by
      simp [Expr.lookups, Expr.gather, Expr.nodeLookups, isPlain]
    have alikeForAll (lookups : List Lookup) : sight.Contexts lookups ctx other :=
      ⟨alike.payload, alike.bindings.all isAll lookups, alike.lineOffset⟩
    refine .bind (.each_same fun part _ => piece_follows engines alikeForAll part)
      fun pieces otherPieces same => ?_
    rw [forall₂_eq_eq_eq] at same
    rw [same]
    exact Likeness.scalar_follows rfl

theorem fields_follows (alike : ∀ expr, Expr.IsChild expr (.object pairs) →
        sight.fine expr ∧ sight.Contexts expr.lookups ctx other)
    (same : List.Forall₂ sight.SameEntry entries others) :
    (fields left ctx entries pairs).Follows refuses (List.Forall₂ sight.SameEntry)
      (fields right other others pairs) := by
  induction pairs generalizing entries others with
  | nil => exact .pure same
  | cons pair _ ih =>
    obtain ⟨keyIsFine, keyAlike⟩ := alike pair.1 (.key mem_cons_self)
    obtain ⟨valueIsFine, valueAlike⟩ := alike pair.2 (.value mem_cons_self)
    refine .bind (engines.eval keyIsFine keyAlike) fun name otherName sameName => ?_
    rw [Likeness.eq_of_kept (keyOf_onFunctions sight.change) sameName]
    refine .bind_same (liftM (keyOf otherName)) fun key => ?_
    refine .bind (engines.eval valueIsFine valueAlike) fun value otherValue sameValue => ?_
    refine ih (fun expr isChild => ?_) (Likeness.same_insert key same sameValue)
    cases isChild with
    | key mem => exact alike _ (.key (.tail _ mem))
    | value mem => exact alike _ (.value (.tail _ mem))

theorem call_follows (isFine : sight.fine (.call function arguments))
    (alike : sight.Contexts (Expr.lookups (.call function arguments)) ctx other) :
    (call left ctx function arguments).Follows refuses sight.Same
      (call right other function arguments) := by
  refine .bind (engines.eval (sight.fine_child .callee isFine) (alike.child .callee))
    fun callee otherCallee sameCallee => ?_
  have onArguments :
      ∀ numbered ∈ arguments.zipIdx,
        (argument left ctx function numbered).Follows refuses sight.Same
          (argument right other function numbered) := by
    intro numbered mem
    have isChild : Expr.IsChild numbered.1 (.call function arguments) :=
      .argument (fst_mem_of_mem_zipIdx mem)
    have fineArgument := sight.fine_child isChild isFine
    have alikeArgument := alike.child isChild
    unfold argument
    split
    · exact .pure (Likeness.same_function
        (Sight.sameFunction_implicit fineArgument alikeArgument.bindings alikeArgument.payload _))
    · exact engines.eval fineArgument alikeArgument
  refine .bind (.each_same onArguments) fun values others same => ?_
  cases Likeness.alike_of_same sameCallee with
  | function sameFun => exact engines.call sameFun same
  | _ => exact .throw _

/-! ## Cases of a match -/

omit engines in
theorem bound_alike (alike : sight.Contexts lookups ctx other) (binding : Option String)
    (same : sight.Same value otherValue) :
    sight.Contexts lookups (bound ctx binding value) (bound other binding otherValue) := by
  unfold bound
  split
  · exact alike
  · exact alike
  · exact ⟨alike.payload, (alike.bindings.set _ same).fewer (subset_cons_self _ _), rfl⟩

theorem meets_follows (keepsSame : Function.KeepsSame sight.change)
    (same : sight.Same value otherValue) (alike :
      ∀ expr, matcher = some expr → sight.fine expr ∧ sight.Contexts expr.lookups ctx other) :
    (meets left ctx value matcher).Follows refuses Eq (meets right other otherValue matcher) := by
  cases matcher with
  | none => exact .pure rfl
  | some matcher =>
    obtain ⟨isFine, alike⟩ := alike matcher rfl
    refine .bind (engines.eval isFine alike) fun expected otherExpected sameExpected => .pure ?_
    exact Likeness.matchesValue_of_same same sameExpected (.inl keepsSame)

theorem passes_follows {guard : Option Expr} (alike : ∀ expr, guard = some expr →
        sight.fine expr ∧ sight.Contexts expr.lookups ctx other) :
    (passes left ctx guard).Follows refuses Eq (passes right other guard) := by
  cases guard with
  | none => exact .pure rfl
  | some guard =>
    obtain ⟨isFine, alike⟩ := alike guard rfl
    exact .bind (engines.eval isFine alike) fun value otherValue same =>
      .pure (Likeness.isTruthy_of_same same)

theorem casesBy_follows (same : sight.Same value otherValue) (alike :
      ∀ case ∈ alts, ∀ expr, Expr.IsInCase case expr →
        sight.fine expr ∧ sight.Contexts expr.lookups ctx other)
    (meets :
      ∀ matcher,
        (∀ expr, matcher = some expr → sight.fine expr ∧ sight.Contexts expr.lookups ctx other) →
        (leftMeets value matcher).Follows refuses Eq (rightMeets otherValue matcher)) :
    (casesBy leftMeets left ctx value alts).Follows refuses sight.Same
      (casesBy rightMeets right other otherValue alts) := by
  induction alts with
  | nil => exact Likeness.scalar_follows rfl
  | cons case _ ih =>
    rw [forall_mem_cons] at alike
    obtain ⟨inCase, inRest⟩ := alike
    obtain ⟨pattern, result⟩ := case
    obtain ⟨isFine, inResult⟩ := inCase result .result
    cases pattern with
    | none => exact engines.eval isFine inResult
    | some pattern =>
      refine .bind
        (meets pattern.matcher fun expr isMatcher => inCase expr (.matcher rfl isMatcher))
        fun isMet otherIsMet sameMet => ?_
      subst sameMet
      cases isMet with
      | false => exact ih inRest
      | true =>
        refine .bind
          (passes_follows engines fun expr isGuard =>
            (inCase expr (.guard rfl isGuard)).imp_right fun alike =>
              bound_alike alike pattern.binding same)
          fun isPassed otherIsPassed samePassed => ?_
        subst samePassed
        cases isPassed with
        | false => exact ih inRest
        | true => exact engines.eval isFine (bound_alike inResult pattern.binding same)

/-! ## One node -/

/-- A node leaves what looks the same; for a match this takes that functions are told apart
alike. -/
theorem step_follows {expr : Expr} (isFine : sight.fine expr)
    (alike : sight.Contexts expr.lookups ctx other) (keepsSame :
      ∀ subject alts, expr = .matching subject alts → Function.KeepsSame sight.change) :
    (step left ctx expr).Follows refuses sight.Same (step right other expr) := by
  have child {child : Expr} (isChild : Expr.IsChild child expr) :
      sight.fine child ∧ sight.Contexts child.lookups ctx other :=
    ⟨sight.fine_child isChild isFine, alike.child isChild⟩
  have evals {inner : Expr} (isChild : Expr.IsChild inner expr) :
      (left.eval ctx inner).Follows refuses sight.Same (right.eval other inner) :=
    engines.eval (child isChild).1 (child isChild).2
  cases expr with
  | object =>
    exact .bind (fields_follows engines (fun _ => child) .nil) fun entries others same =>
      Likeness.record_follows same
  | list =>
    exact .bind (.each_same fun element mem => evals (.element mem))
      fun items others same => Likeness.array_follows same
  | text => exact template_follows engines alike
  | template =>
    refine .bind (.each_same fun part mem => .bind (evals (.part mem)) fun _ _ same =>
      .of_eq (congrArg liftM
        (Likeness.eq_of_kept (Value.interpolated_onFunctions) same)))
      fun texts otherTexts same => ?_
    rw [forall₂_eq_eq_eq] at same
    rw [same]
    exact Likeness.scalar_follows rfl
  | number => exact Likeness.scalar_follows (Likeness.isScalar_ofNumber _)
  | boolean | null => exact Likeness.scalar_follows rfl
  | name name pos => exact ctx.resolve_follows name pos alike
  | placeholder level pos => exact ctx.placeholder_follows level pos alike
  | property _ selector nullSafe =>
    exact .bind (evals .base) fun value otherValue same =>
      .lift (property_along selector nullSafe same)
  | index =>
    refine .bind (evals .indexed) fun value otherValue same => ?_
    exact .bind (evals .place) fun index otherIndex sameIndex =>
      .lift (Likeness.pickAt_along same sameIndex)
  | call => exact call_follows engines isFine alike
  | orElse =>
    refine .bind (evals .left) fun value otherValue same => ?_
    cases Likeness.alike_of_same same with
    | null => exact evals .right
    | _ => exact .pure same
  | conditional =>
    refine .bind (evals .condition) fun value otherValue same => ?_
    rw [Likeness.isTruthy_of_same same]
    split
    · exact evals .whenTrue
    · exact evals .whenFalse
  | lambda =>
    exact .pure (Likeness.same_function
      (Sight.sameFunction_lambda isFine alike.bindings alike.payload))
  | matching =>
    refine .bind (evals .subject) fun value otherValue same => ?_
    rw [← casesBy_meets, ← casesBy_meets]
    exact casesBy_follows engines same (fun case mem expr isIn => child (.inCase mem isIn))
      fun matcher => meets_follows engines (keepsSame _ _ rfl) same
  | coercion _ target options =>
    refine .bind (evals .coerced) fun result otherResult same => ?_
    have coerced := Likeness.coerce_along target same
    cases options with
    | none => exact .lift coerced
    | some => exact .bind (evals .options) fun _ _ _ => .lift coerced

end Engines

end Weave.Eval

namespace Weave

/-- Where functions are told apart alike, engines follow each other to every depth. -/
theorem Engine.upTo_follows {sight : Sight} (keepsSame : Function.KeepsSame sight.change)
    (settings : sight.Settings setting other) (depth : Nat) :
    Engine.Follows refuses sight (upTo setting depth) (upTo other depth) := by
  induction depth with
  | zero => exact ⟨fun _ _ => .throw _, fun _ _ => .throw _⟩
  | succ _ ih =>
    exact ⟨fun isFine alike =>
        Eval.step_follows ih isFine alike fun _ _ _ => keepsSame,
      fun sameCallee same =>
        Call.step_follows ih settings sameCallee same fun _ _ => keepsSame⟩

end Weave
