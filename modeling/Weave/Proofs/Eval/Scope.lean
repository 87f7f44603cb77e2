import Mathlib
import Weave.Proofs.Eval.Follows
import Weave.Proofs.Eval.Forget
import Weave.Proofs.Value.Order

namespace Weave

/-!
# What an evaluation depends on

An expression that was read from a source sees a context through its names and placeholders only.
In two contexts that agree on these, its evaluation logs the same lines and leaves the same fault,
or values that are equal unless they hold functions.  This takes that the evaluation asks functions
for nothing but results, since their texts and parts show all the variables they hold, and two
functions are equal only if these variables are.  The wary engine evaluates like the other one but
leaves open whether two values that both hold functions are equal and which of them goes first.
-/

/-! ## The wary engine -/

namespace Eval

/-- Whether a value is equal to what a case asks for, which is left open if both hold functions. -/
def meetsWary (engine : Engine) (context : Context) (value : Value) :
    Option Expr → Outcome Bool
  | none => return true
  | some matcher => do
    let expected ← engine.eval context matcher
    if value.holdsFunction && expected.holdsFunction then throw .unspecified
    else return value.matchesValue expected

/-- Evaluate the outermost node of an expression without comparing functions. -/
def stepWary (engine : Engine) (context : Context) : Expr → Outcome Value
  | .matching subject alternatives => do
    let value ← engine.eval context subject
    casesBy (meetsWary engine context) engine context value alternatives
  | expr => step engine context expr

end Eval

/-- Call a function that compares no functions. -/
def Call.stepWary (setting : Setting) (engine : Engine) : Caller :=
  fun function arguments =>
    match function with
    | .builtin builtin => builtin.runWary setting.ambient engine.call arguments
    | function => step setting engine function arguments

/-- The engine for evaluations up to a depth that compare no functions. -/
def Engine.wary (setting : Setting) : Nat → Engine
  | 0 => exhausted
  | depth + 1 => ⟨Eval.stepWary (wary setting depth), Call.stepWary setting (wary setting depth)⟩

/-- The evaluation asks for no text and no part of a function, compares no two values that both hold
functions and puts none in order. -/
def Expr.LeavesFunctionsClosed (setting : Setting) (context : Context) (expr : Expr) : Prop :=
  ((Engine.wary setting Engine.depth).eval context expr).result ≠ .error .unspecified

/-! ## The wary engine follows the other one -/

theorem Sight.forgetting_refl (lookups : List Lookup) (ctx : Context) :
    Sight.forgetting.Contexts lookups ctx ctx :=
  ⟨⟨rfl, fun _ _ => trivial, fun _ _ => trivial⟩,
    ⟨rfl, fun _ _ _ _ => trivial, fun _ _ _ _ => trivial⟩, rfl⟩

section Engines

variable {left right : Engine}
  (engines : Engine.Follows (· = .unspecified) .forgetting left right)

include engines

namespace Eval

variable {ctx other : Context}

theorem meetsWary_follows (same : Sight.forgetting.Same value otherValue) (alike :
      ∀ expr, matcher = some expr →
        Sight.forgetting.fine expr ∧ Sight.forgetting.Contexts expr.lookups ctx other) :
    (meetsWary left ctx value matcher).Follows (· = .unspecified) Eq
      (meets right other otherValue matcher) := by
  cases matcher with
  | none => exact .pure rfl
  | some matcher =>
    obtain ⟨isFine, alike⟩ := alike matcher rfl
    refine .bind (engines.eval isFine alike) fun expected otherExpected sameExpected => ?_
    cases holds : value.holdsFunction && expected.holdsFunction with
    | true => exact .refused rfl rfl
    | false =>
      exact .pure (Likeness.matchesValue_of_same same sameExpected
        (.inr (Bool.and_eq_false_iff.mp holds)))

/-- A node that compares no functions leaves what looks the same. -/
theorem stepWary_follows {expr : Expr} (alike : Sight.forgetting.Contexts expr.lookups ctx other) :
    (stepWary left ctx expr).Follows (· = .unspecified) Sight.forgetting.Same
      (step right other expr) := by
  cases expr with
  | matching =>
    refine .bind (engines.eval trivial (alike.child .subject)) fun value otherValue same => ?_
    rw [← casesBy_meets]
    exact casesBy_follows engines same
      (fun case mem expr isIn => ⟨trivial, alike.child (.inCase mem isIn)⟩)
      fun matcher => meetsWary_follows engines same
  | _ => exact step_follows engines trivial alike (by simp)

end Eval

/-- A call that compares no functions leaves what looks the same. -/
theorem Call.stepWary_follows (setting : Setting) :
    Caller.Follows (· = .unspecified) Sight.forgetting.toLikeness Sight.forgetting.Same
      (stepWary setting left) (step setting right) := by
  have settings : Sight.forgetting.Settings setting setting := by
    refine ⟨rfl, fun {index decl} _ => ?_⟩
    cases setting.frames[index]? with
    | none => exact .inl ⟨rfl, rfl⟩
    | some frame =>
      have alike :=
        Sight.forgetting_refl (Expr.lookups (.lambda decl.parameters decl.body))
          ⟨frame.payload, frame.bindings, 0⟩
      exact .inr ⟨frame, frame, rfl, rfl, alike.payload, alike.bindings⟩
  intro callee other arguments others sameCallee same
  have notBuiltin (isOther : ∀ builtin, callee ≠ .builtin builtin) :
      (step setting left callee arguments).Follows (· = .unspecified) Sight.forgetting.Same
        (step setting right other others) :=
    step_follows engines settings sameCallee same fun builtin isBuiltin =>
      absurd isBuiltin (isOther builtin)
  cases callee with
  | builtin builtin =>
    cases Sight.sameCallee_of_same sameCallee
    exact @Builtin.runWary_follows _ _ _ _ _ (· = .unspecified) rfl setting.ambient engines.call
      builtin same
  | _ => exact notBuiltin (by simp)

end Engines

theorem Engine.wary_follows (setting : Setting) (depth : Nat) :
    Engine.Follows (· = .unspecified) .forgetting (wary setting depth) (upTo setting depth) := by
  induction depth with
  | zero => exact ⟨fun _ _ => .throw _, fun _ _ => .throw _⟩
  | succ _ ih =>
    exact ⟨fun _ alike => Eval.stepWary_follows ih alike, Call.stepWary_follows ih setting⟩

/-- The outcomes log the same lines and leave the same fault, or values that are equal unless they
hold functions. -/
inductive Outcome.SameData : Outcome Value → Outcome Value → Prop
  | fault (logs : List LogEntry) (raised : Fault) :
      SameData ⟨logs, .error raised⟩ ⟨logs, .error raised⟩
  | value (logs : List LogEntry) {found other : Value}
      (sameSort : found.holdsFunction = other.holdsFunction)
      (same : found.holdsFunction = false → found = other) :
      SameData ⟨logs, .ok found⟩ ⟨logs, .ok other⟩

theorem Outcome.sameData_of_follows {like : Likeness} {first left : Outcome Value}
    (onLeft : first.Follows refuses like.Same left)
    (onRight : first.Follows refuses like.Same right)
    (goesOn : ∀ raised, first.result = .error raised → ¬ refuses raised) :
    left.SameData right := by
  cases onLeft with
  | refused isRaised isRefusal => exact absurd isRefusal (goesOn _ isRaised)
  | fault logs raised =>
    cases onRight with
    | refused isRaised isRefusal => exact absurd isRefusal (goesOn _ isRaised)
    | fault => exact .fault logs raised
  | value logs sameLeft =>
    cases onRight with
    | refused isRaised => cases isRaised
    | value _ sameRight =>
      have same : like.Same _ _ :=
        ⟨sameLeft.seen.symm.trans sameRight.seen, sameLeft.right, sameRight.right⟩
      exact .value logs (Likeness.eq_of_kept (Value.holdsFunction_onFunctions _) same)
        fun isData => Likeness.eq_of_data isData same

namespace Expr

theorem alike_of_names {expr : Expr} (isWritten : expr.IsWritten) (noTable : "vars" ∉ expr.names)
    {left right : Context} (samePayload : left.payload = right.payload)
    (sameOffset : left.lineOffset = right.lineOffset)
    (sameNames : ∀ name ∈ expr.names, left.bindings.find? name = right.bindings.find? name)
    (samePlaceholders :
      ∀ level ∈ expr.levels,
        left.bindings.find? (Context.placeholderName level) =
          right.bindings.find? (Context.placeholderName level)) :
    Sight.forgetting.Contexts expr.lookups left right := by
  have accounts := accounts_of_isWritten isWritten noTable
  have notAll : .all ∉ expr.lookups := by
    intro isAsked
    rcases accounts _ isAsked with ⟨_, _, isName⟩ | ⟨_, _, isLevel⟩
    · cases isName
    · cases isLevel
  refine ⟨⟨congrArg _ samePayload, fun _ _ => trivial, fun _ _ => trivial⟩,
    ⟨Bindings.seen_eq_iff.mpr ⟨fun isAll => absurd isAll notAll, fun name isAsked => ?_⟩,
      fun _ _ _ _ => trivial, fun _ _ _ _ => trivial⟩, sameOffset⟩
  rw [Bindings.find?_onVariable, Bindings.find?_onVariable]
  rcases accounts _ isAsked with ⟨present, inNames, isName⟩ | ⟨level, inLevels, isLevel⟩
  · obtain rfl := Lookup.named.inj isName
    rw [sameNames name inNames]
  · rw [Lookup.named.inj isLevel, samePlaceholders level inLevels]

/-- An evaluation that asks functions for nothing but results depends on the payload, the offset of
its lines and the variables that the expression names. -/
theorem sameData_eval_of_names (setting : Setting) {source : List Char} {expr : Expr}
    (isRead : parse source = .ok expr) (noTable : "vars" ∉ expr.names) {left right : Context}
    (samePayload : left.payload = right.payload) (sameOffset : left.lineOffset = right.lineOffset)
    (sameNames : ∀ name ∈ expr.names, left.bindings.find? name = right.bindings.find? name)
    (samePlaceholders :
      ∀ level ∈ expr.levels,
        left.bindings.find? (Context.placeholderName level) =
          right.bindings.find? (Context.placeholderName level))
    (closed : expr.LeavesFunctionsClosed setting left) :
    (expr.eval setting left).SameData (expr.eval setting right) := by
  have engines := Engine.wary_follows setting Engine.depth
  have alike :=
    alike_of_names (isWritten_of_parse isRead) noTable samePayload sameOffset sameNames
      samePlaceholders
  -- Both evaluations leave what the wary one leaves on the left.
  have onLeft := engines.eval trivial (Sight.forgetting_refl expr.lookups left)
  have onRight := engines.eval trivial alike
  refine Outcome.sameData_of_follows onLeft onRight fun raised isRaised isRefusal => ?_
  rw [isRefusal] at isRaised
  exact closed isRaised

/-- Whether an argument is a variable's value, asked by a function that is called with it. -/
def isValueOf : Expr :=
  .call
    (.lambda [⟨"x", none, none⟩] (.binary "_binary_eq" (.name "x" ⟨1, 9⟩) (.name "a" ⟨1, 14⟩)))
    [.name "a" ⟨1, 17⟩]

theorem sameData_eval_isValueOf :
    (isValueOf.eval ⟨⟨"", 0⟩, []⟩ ⟨.null, [("a", .bool true)], 0⟩).SameData
      (isValueOf.eval ⟨⟨"", 0⟩, []⟩ ⟨.null, [("$", .null), ("a", .bool true)], 0⟩) := by
  have isRead : parse "((x) -> x == a)(a)".toList = .ok isValueOf := by cbv
  have evals :
      ((Engine.wary ⟨⟨"", 0⟩, []⟩ Engine.depth).eval
        ⟨.null, [("a", .bool true)], 0⟩ isValueOf).result =
          .ok (.bool (Value.bool true == Value.bool true)) :=
    rfl
  have sameNames :
      ∀ name ∈ isValueOf.names,
        Bindings.find? [("a", .bool true)] name =
          Bindings.find? [("$", .null), ("a", .bool true)] name := by
    intro name member
    have names : isValueOf.names = ["_binary_eq", "x", "a", "a"] := rfl
    rw [names] at member
    simp only [List.mem_cons, List.not_mem_nil, or_false] at member
    rcases member with rfl | rfl | rfl | rfl <;> rfl
  have noPlaceholder : isValueOf.levels = [] := rfl
  refine sameData_eval_of_names ⟨⟨"", 0⟩, []⟩ isRead (by decide) rfl rfl sameNames ?_ ?_
  · rw [noPlaceholder]
    intro level member
    cases member
  · rw [Expr.LeavesFunctionsClosed, evals]
    intro refused
    cases refused

/-- A function that is made in a call whose parameter hides the one of a call around it. -/
def innermost (given : Bool) : Expr :=
  .call
    (.lambda [⟨"x", none, none⟩]
      (.call (.lambda [⟨"x", none, none⟩] (.lambda [⟨"y", none, none⟩] .null)) [.null]))
    [.boolean given]

/-- The function that is made there, with the variables it holds. -/
def made (captured : Bindings) : Value :=
  .function (.lambda [⟨"y", none, none⟩] .null captured .null)

/-- Two functions that differ only in what the placeholder stands for where they are made. -/
def comparedInnermost : Expr := .binary "_binary_eq" (innermost true) (innermost false)

/-- Without variables the placeholder stands for the argument of the outer call, so the functions
differ; a variable that no name asks for keeps it from doing so, and the functions are equal. -/
theorem eval_comparedInnermost_differs : parse ("((x) -> ((x) -> ((y) -> null))(null))(true) == " ++
          "((x) -> ((x) -> ((y) -> null))(null))(false)").toList =
      .ok comparedInnermost ∧
    "vars" ∉ comparedInnermost.names ∧
    (∀ name ∈ comparedInnermost.names,
      Bindings.find? [] name = Bindings.find? [("$", .null)] name) ∧
    comparedInnermost.levels = [] ∧
    (comparedInnermost.eval ⟨⟨"", 0⟩, []⟩ ⟨.null, [], 0⟩).result = .ok (.bool false) ∧
    (comparedInnermost.eval ⟨⟨"", 0⟩, []⟩ ⟨.null, [("$", .null)], 0⟩).result =
      .ok (.bool true) := by
  have sameNames :
      ∀ name ∈ comparedInnermost.names,
        Bindings.find? [] name = Bindings.find? [("$", .null)] name := by
    intro name member
    have names : comparedInnermost.names = ["_binary_eq"] := rfl
    rw [names, List.mem_singleton] at member
    rw [member]
    rfl
  have differs :
      (made [("x", .null), ("$", .bool true)] == made [("x", .null), ("$", .bool false)]) =
        false := by
    have unequal : (Number.int 1).same (.int 0) = false := by
      simp [Number.same, Number.compare?_int]
    have found : List.lookup "$" [("x", .null), ("$", Value.bool false)] = some (.bool false) := rfl
    simp [made, BEq.beq, Value.same, Function.same, sameBindings, Value.number?, found, unequal]
  have onNothing :
      (comparedInnermost.eval ⟨⟨"", 0⟩, []⟩ ⟨.null, [], 0⟩).result =
        .ok (.bool
          (made [("x", .null), ("$", .bool true)] == made [("x", .null), ("$", .bool false)])) :=
    rfl
  have isSame :
      (made [("$", .null), ("x", .null)] == made [("$", .null), ("x", .null)]) = true := by
    cbv
  have onPlaceholder :
      (comparedInnermost.eval ⟨⟨"", 0⟩, []⟩ ⟨.null, [("$", .null)], 0⟩).result =
        .ok (.bool (made [("$", .null), ("x", .null)] == made [("$", .null), ("x", .null)])) :=
    rfl
  rw [onNothing, differs, onPlaceholder, isSame]
  exact ⟨by cbv, by decide, sameNames, rfl, rfl, rfl⟩

end Expr

end Weave
