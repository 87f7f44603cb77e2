import Weave.Proofs.Eval.Engine
import Weave.Proofs.Expr.Lowered
import Weave.Proofs.Grammar.Written
import Weave.Proofs.Outcome.Alike

namespace Weave

open List Weave.Expr

/-!
# Lines that a context adds

Evaluating an expression where lines are added to its names comes to the same as evaluating the
expression with the names moved down, where nothing is added.  Functions that the evaluation makes
are the same in both, since they hold what is not moved.
-/

/-- The context in which nothing is added to lines. -/
def Context.level (ctx : Context) : Context := { ctx with lineOffset := 0 }

/-- The engine evaluates expressions as it does the lowered ones where nothing is added. -/
def Engine.Lowers (engine : Engine) : Prop :=
  ∀ ctx expr, expr.IsWritten →
    (engine.eval ctx expr).Alike (engine.eval ctx.level (expr.lowered ctx.lineOffset))

/-- A case without a name for the matched value sees what the match sees. -/
theorem Eval.bound_of_not_isBinding {pattern : MatchPattern Expr}
    (noName : pattern.isBinding = false) (ctx : Context) (value : Value) :
    bound ctx pattern.binding value = ctx := by
  unfold MatchPattern.isBinding at noName
  unfold bound
  split
  · rfl
  · rfl
  · rename_i name isEmpty isBound
    simp only [isBound, bne_eq_false_iff_eq] at noName
    exact absurd noName isEmpty

/-- A case with a name for the matched value adds nothing to lines. -/
theorem Eval.bound_of_isBinding {pattern : MatchPattern Expr} (hasName : pattern.isBinding)
    (ctx : Context) (value : Value) :
    bound ctx pattern.binding value = bound ctx.level pattern.binding value := by
  unfold MatchPattern.isBinding at hasName
  unfold bound
  split <;> simp_all [Context.level]

namespace Engine.Lowers

variable {engine : Engine} (lowers : engine.Lowers) (ctx : Context)

include lowers

/-! ## One node -/

theorem fields (areWritten : ∀ pair ∈ pairs, pair.1.IsWritten ∧ pair.2.IsWritten)
    (entries : Entries) : (Eval.fields engine ctx entries pairs).Alike
      (Eval.fields engine ctx.level entries (loweredFields ctx.lineOffset pairs)) := by
  induction pairs generalizing entries with
  | nil => exact .refl _
  | cons pair _ ih =>
    rw [forall_mem_cons] at areWritten
    refine (lowers ctx pair.1 areWritten.1.1).bind fun keyValue => ?_
    refine (Outcome.Alike.refl _).bind fun key => ?_
    refine (lowers ctx pair.2 areWritten.1.2).bind fun value => ?_
    exact ih areWritten.2 _

theorem argument (fn : Expr) {argument : Expr} (isWritten : argument.IsWritten)
    (place : Nat) : (Eval.argument engine ctx fn (argument, place)).Alike
      (Eval.argument engine ctx.level (fn.lowered ctx.lineOffset)
        (if fn.isImplicitFunction argument place then argument
          else argument.lowered ctx.lineOffset, place)) := by
  by_cases isImplicit : fn.isImplicitFunction argument place
  · simp only [Eval.argument, isImplicit, if_true, isImplicitFunction_lowered_callee]
    exact .refl _
  · have notImplicit :
        ¬ (fn.lowered ctx.lineOffset).isImplicitFunction
            (argument.lowered ctx.lineOffset) place := by
      rw [isImplicitFunction_lowered_callee, isImplicitFunction_lowered_argument]
      exact isImplicit
    rw [if_neg isImplicit, Eval.argument, Eval.argument, if_neg isImplicit, if_neg notImplicit]
    exact lowers ctx argument isWritten

theorem arguments (fn : Expr) {arguments : List Expr}
    (areWritten : ∀ argument ∈ arguments, argument.IsWritten) (place : Nat) :
    (Outcome.each (Eval.argument engine ctx fn) (arguments.zipIdx place)).Alike
      (Outcome.each (Eval.argument engine ctx.level (fn.lowered ctx.lineOffset))
        ((loweredArguments ctx.lineOffset fn place arguments).zipIdx place)) := by
  induction arguments generalizing place with
  | nil => exact .refl _
  | cons _ _ ih =>
    rw [forall_mem_cons] at areWritten
    rw [loweredArguments, zipIdx_cons, zipIdx_cons]
    refine (lowers.argument ctx fn areWritten.1 place).bind fun value => ?_
    exact (ih areWritten.2 (place + 1)).bind fun _ => .refl _

theorem call {function : Expr} {arguments : List Expr}
    (isWritten : (Expr.call function arguments).IsWritten) :
    (Eval.call engine ctx function arguments).Alike
      (Eval.call engine ctx.level (function.lowered ctx.lineOffset)
        (Expr.loweredArguments ctx.lineOffset function 0 arguments)) := by
  refine (lowers ctx function (isWritten.child .callee)).bind fun callee => ?_
  refine (lowers.arguments ctx function
    (fun argument mem => isWritten.child (.argument mem)) 0).bind fun values => ?_
  cases callee with
  | function => exact .refl _
  | _ => exact .fault (.notCallable _ _)

theorem meets (value : Value) (areWritten : ∀ expr, matcher = some expr → expr.IsWritten) :
    (Eval.meets engine ctx value matcher).Alike (Eval.meets engine ctx.level value
        (loweredOption ctx.lineOffset matcher)) := by
  cases matcher with
  | none => exact .refl _
  | some matcher => exact (lowers ctx matcher (areWritten _ rfl)).bind fun _ => .refl _

theorem passes {guard : Option Expr} (areWritten : ∀ expr, guard = some expr → expr.IsWritten) :
    (Eval.passes engine ctx guard).Alike
      (Eval.passes engine ctx.level (loweredOption ctx.lineOffset guard)) := by
  cases guard with
  | none => exact .refl _
  | some guard => exact (lowers ctx guard (areWritten _ rfl)).bind fun _ => .refl _

theorem cases (value : Value) {alts : List (MatchCase Expr)}
    (areWritten : ∀ case ∈ alts, ∀ expr, Expr.IsInCase case expr → expr.IsWritten) :
    (Eval.cases engine ctx value alts).Alike (Eval.cases engine ctx.level value
        (loweredCases ctx.lineOffset alts)) := by
  induction alts with
  | nil => exact .refl _
  | cons first _ ih =>
    rw [forall_mem_cons] at areWritten
    have later := ih areWritten.2
    obtain ⟨pattern, result⟩ := first
    have resultWritten := areWritten.1 result .result
    cases pattern with
    | none => exact lowers ctx result resultWritten
    | some pattern =>
      obtain ⟨binding, matcher, guard⟩ := pattern
      have meets := lowers.meets ctx value fun matcher isMatcher =>
        areWritten.1 matcher (.matcher rfl isMatcher)
      have passes := lowers.passes ctx fun guard isGuard =>
        areWritten.1 guard (.guard rfl isGuard)
      rw [loweredCases]
      by_cases isBinding : (MatchPattern.mk binding matcher guard).isBinding
      · -- Both sides evaluate the same guard and the same result in the same context.
        have same := Eval.bound_of_isBinding isBinding ctx value
        rw [if_pos isBinding]
        refine meets.bind fun isMet => ?_
        cases isMet with
        | false => exact later
        | true =>
          dsimp only at same ⊢
          rw [same]
          refine (Outcome.Alike.refl _).bind fun isPassed => ?_
          cases isPassed with
          | false => exact later
          | true => exact .refl _
      · have noName : (MatchPattern.mk binding matcher guard).isBinding = false := by
          simpa using isBinding
        have left := Eval.bound_of_not_isBinding noName ctx value
        have right := Eval.bound_of_not_isBinding noName ctx.level value
        rw [if_neg isBinding]
        refine meets.bind fun isMet => ?_
        cases isMet with
        | false => exact later
        | true =>
          dsimp only at left right ⊢
          rw [left, right]
          refine passes.bind fun isPassed => ?_
          cases isPassed with
          | false => exact later
          | true => exact lowers ctx result resultWritten

theorem step {expr : Expr} (isWritten : expr.IsWritten) : (Eval.step engine ctx expr).Alike
      (Eval.step engine ctx.level (expr.lowered ctx.lineOffset)) := by
  have evals {inner : Expr} (isChild : Expr.IsChild inner expr) :=
    lowers ctx inner (isWritten.child isChild)
  cases expr with
  | object =>
    refine (lowers.fields ctx (fun pair mem => ?_) []).bind fun _ => .refl _
    exact ⟨isWritten.child (.key mem), isWritten.child (.value mem)⟩
  | list =>
    rw [lowered, loweredAll_eq_map]
    refine Outcome.Alike.bind (.each ?_) fun _ => .refl _
    rw [forall₂_map_right_iff, forall₂_same]
    exact fun element mem => evals (.element mem)
  | text =>
    have isPlain := isWritten.here
    rw [lowered, Eval.step_text_of_plain isPlain, Eval.step_text_of_plain isPlain]
    exact .refl _
  | template =>
    rw [lowered, loweredAll_eq_map]
    refine Outcome.Alike.bind (.each ?_) fun _ => .refl _
    rw [forall₂_map_right_iff, forall₂_same]
    exact fun part mem => (evals (.part mem)).bind fun _ => .refl _
  | number value | boolean value | null | placeholder level pos | lambda params body =>
    exact .refl _
  | name => exact .of_eq rfl
  | property => exact (evals .base).bind fun _ => .refl _
  | index =>
    exact (evals .indexed).bind fun _ => (evals .place).bind fun _ => .refl _
  | call => exact lowers.call ctx isWritten
  | orElse =>
    refine (evals .left).bind fun value => ?_
    cases value with
    | null => exact evals .right
    | _ => exact .refl _
  | conditional =>
    refine (evals .condition).bind fun test => ?_
    cases test.isTruthy with
    | true => exact evals .whenTrue
    | false => exact evals .whenFalse
  | matching =>
    exact (evals .subject).bind fun value =>
      lowers.cases ctx value fun case mem expr isIn => isWritten.child (.inCase mem isIn)
  | coercion _ _ options =>
    refine (evals .coerced).bind fun result => ?_
    cases options with
    | none => exact .refl _
    | some => exact (evals .options).bind fun _ => .refl _

end Engine.Lowers

/-- Every engine evaluates an expression as it does the lowered one where nothing is added. -/
theorem Engine.lowers_upTo (setting : Setting) (depth : Nat) : (upTo setting depth).Lowers := by
  induction depth with
  | zero => exact fun _ _ _ => .refl _
  | succ _ ih => exact fun ctx _ isWritten => ih.step ctx isWritten

end Weave
