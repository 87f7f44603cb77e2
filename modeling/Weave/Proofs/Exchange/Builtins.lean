import Weave.Proofs.Exchange.Arrangement

namespace Weave

/-!
# Built-in functions

Whether two functions are equal is left open like the text of a function, so a wary built-in
function refuses to compare two values that both hold functions.  Unless it does, arguments that
look the same lead to results that look the same.  Where functions look the same just if they are
equal, it need not refuse.
-/

open Value Likeness

variable {value other : Value} {call keyCall otherCall : Caller}
  {args others : List Value} {like : Likeness} {refuses : Fault → Prop}

/-- The caller that refuses results that hold functions. -/
def Caller.onlyData (call : Caller) : Caller := fun callee arguments => do
  let result ← call callee arguments
  if result.holdsFunction then throw .unspecified else return result

namespace Builtin

/-- Whether a function compares its two arguments, or the first one's items with the second one. -/
def comparesArguments : Builtin → Bool
  | .equal | .notEqual | .greater | .less | .greaterEqual | .lessEqual | .contains | .find
  | .indexOf | .lastIndexOf => true
  | _ => false

/-- Whether a function compares items of its argument with each other. -/
def comparesItems : Builtin → Bool
  | .maximum | .minimum => true
  | _ => false

/-- Whether a function compares the results of the function it is given. -/
def comparesResults : Builtin → Bool
  | .maxBy | .minBy | .orderBy => true
  | _ => false

/-- Whether a call compares values among its arguments that both hold functions. -/
def comparesFunctions (builtin : Builtin) : List Value → Bool
  | [value] => builtin.comparesItems && value.holdsFunction
  | [left, right] =>
    match builtin with
    | .diff => left.isList && left.holdsFunction && right.holdsFunction
    | .orderBy => right.isNull && !left.isObject && left.holdsFunction
    | builtin => builtin.comparesArguments && left.holdsFunction && right.holdsFunction
  | _ => false

/-- Call a built-in function that refuses to compare values that both hold functions. -/
def runWary (ambient : Ambient) (call : Caller) (builtin : Builtin)
    (arguments : List Value) :
    Outcome Value :=
  if builtin.comparesFunctions arguments then throw .unspecified
  else
    builtin.run ambient (if builtin.comparesResults then call.onlyData else call) arguments

end Builtin

/-- Results without functions may be compared. -/
theorem Caller.onlyData_follows (isRefusal : refuses .unspecified) {left : Caller}
    (callers : Caller.Follows refuses like like.Same left right) :
    Caller.Follows refuses like like.SameKey left.onlyData right := by
  intro callee other args others sameCallee sameArguments
  rw [← bind_pure (right other others)]
  refine .bind (callers sameCallee sameArguments) fun found otherFound sameFound => ?_
  cases isData : found.holdsFunction with
  | true => exact .refused rfl isRefusal
  | false => exact .pure ⟨sameFound, .inr isData⟩

namespace Builtin

open Weave.Core

theorem logged_follows (level : LogLevel) (sameWords : like.Same words otherWords)
    (same : like.Same value other) :
    (logged level words value).Follows refuses like.Same (logged level otherWords other) := by
  simp only [logged, logLine, isTruthy_of_same sameWords, toText_of_same sameWords,
    toText_of_same same]
  exact .bind_same _ fun _ => .bind_same _ fun _ => .pure same

theorem runNone_follows (ambient : Ambient) (builtin : Builtin) :
    (runNone ambient builtin).Follows refuses like.Same (runNone ambient builtin) := by
  cases builtin with
  | now | random => exact scalar_follows rfl
  | _ => exact .throw _

theorem runOne_follows (ambient : Ambient) (builtin : Builtin) (same : like.Same value other)
    (comparable :
      Function.KeepsSame like.change ∨ builtin.comparesFunctions [value] = false) :
    (runOne ambient builtin value).Follows refuses like.Same (runOne ambient builtin other) := by
  cases builtin with
  | abs => exact .lift (absolute_along same)
  | avg => exact .lift (average_along same)
  | ceil | floor | round =>
    simp only [runOne, rounded, eq_of_kept toFloat_onFunctions same]
    exact .lift (.bind_same _ fun _ => scalars_along (fun _ => rfl) _)
  | entriesOf | entrySet => exact .lift (onEntries_along _ same_entriesOf same)
  | isBlank => exact .lift (isBlank_along same)
  | isDecimal | isInteger =>
    have sameTest := isNearWhole_of_same same
    cases alike_of_same same with
    | null => exact scalar_follows rfl
    | _ =>
      simp only [runOne, Core.isDecimal, Core.isInteger, sameTest]
      exact .lift (scalars_along (fun _ => rfl) _)
  | isEven | isOdd =>
    simp only [runOne, Core.isEven, Core.isOdd, wholeOf_of_same same]
    exact .lift (scalars_along (fun _ => rfl) _)
  | nameSet => exact .lift (onEntries_along _ same_namesOf same)
  | keySet | keysOf => exact .lift (onEntries_along _ same_keysOf same)
  | valuesOf => exact .lift (onEntries_along _ same_valuesOf same)
  | valueSet => exact .lift (valueSet_along same)
  | flatten => exact .lift (flatten_along same)
  | isEmpty =>
    simp only [runOne, isEmpty_of_same same]
    exact scalar_follows rfl
  | lower | upper | trim => exact .lift (onText_along same _)
  | maximum | minimum => exact .lift (extreme_along _ same comparable)
  | sizeOf =>
    simp only [runOne, sizeOf_of_same same]
    exact .bind_same _ fun _ => scalar_follows rfl
  | sum => exact .lift (total_along same)
  | randomInt =>
    simp only [runOne, randomBelow, toNumeral_of_same same]
    exact .lift (.bind_same _ fun _ => scalars_along (fun _ => rfl) _)
  | log | logDebug | logInfo | logWarn | logError =>
    exact logged_follows _ (same_of_isScalar rfl) same
  | _ => exact .throw _

section

variable {left right otherLeft otherRight : Value} (sameLeft : like.Same left otherLeft)
  (sameRight : like.Same right otherRight)

include sameLeft sameRight

theorem ordered_follows (cmp : Comparison) (comparable : like.Comparable left right) :
    (do return .bool (← (left.compare cmp right : Except Fault Bool)) :
        Outcome Value).Follows refuses like.Same
      (do return .bool (← (otherLeft.compare cmp otherRight : Except Fault Bool))) := by
  rw [compare_of_same sameLeft sameRight cmp comparable]
  exact .bind_same _ fun _ => scalar_follows rfl

theorem runTwo_follows (callers : Caller.Follows refuses like like.Same call otherCall)
    (keyCallers : Caller.Follows refuses like like.SameKey keyCall otherCall) (builtin : Builtin)
    (comparable :
      Function.KeepsSame like.change ∨ builtin.comparesFunctions [left, right] = false) :
    (runTwo (if builtin.comparesResults then keyCall else call) builtin left right).Follows refuses
      like.Same (runTwo otherCall builtin otherLeft otherRight) := by
  have args
      (notBoth :
        Function.KeepsSame like.change ∨ (left.holdsFunction && right.holdsFunction) = false) :
      like.Comparable left right :=
    notBoth.imp_right Bool.and_eq_false_iff.mp
  cases builtin with
  | concat => exact .lift (concat_along sameLeft sameRight)
  | diff =>
    refine .lift (diff_along sameLeft sameRight fun isList => args ?_)
    simpa [comparesFunctions, isList] using comparable
  | contains => exact .lift (contains_along sameLeft sameRight (args comparable))
  | find => exact .lift (find_along sameLeft sameRight (args comparable))
  | indexOf | lastIndexOf =>
    have inSequence (select : List Nat → Option Nat) :=
      places_along sameLeft sameRight (args comparable) fun places =>
        same_of_isScalar (isScalar_placeOrNone (select places))
    have sameText := toText_of_same sameRight
    cases alike_of_same sameLeft with
    | null => exact scalar_follows rfl
    | text =>
      cases alike_of_same sameRight with
      | null => exact scalar_follows rfl
      | _ =>
        simp only [runTwo, Core.indexOf, Core.lastIndexOf, placeBy, sameText]
        exact .lift (scalars_along (fun _ => isScalar_placeOrNone _) _)
    | _ => exact .lift (inSequence _)
  | endsWith | startsWith => exact .lift (compareTexts_along sameLeft sameRight _)
  | filterObject => exact filterObject_follows callers sameRight sameLeft
  | divideBy => exact .lift (divideBy_along sameLeft sameRight)
  | mergeWith => exact .lift (mergeWith_along sameLeft sameRight)
  | filter => exact filter_follows callers sameRight sameLeft
  | takeWhile =>
    exact testEntries_follows sameRight sameLeft _ (same_object _ .nil) fun _ _ same =>
      .bind (leadingEntries_follows callers sameRight same) fun _ _ sameLeading =>
        record_follows sameLeading
  | everyEntry =>
    exact testEntries_follows sameRight sameLeft _ (same_of_isScalar rfl) fun _ _ same =>
      .bind (holdsUntil_follows callers sameRight _ same) fun _ _ sameTest =>
        sameTest ▸ scalar_follows rfl
  | someEntry =>
    exact testEntries_follows sameRight sameLeft _ (same_of_isScalar rfl) fun _ _ same =>
      .bind (holdsUntil_follows callers sameRight _ same) fun _ _ sameTest =>
        sameTest ▸ scalar_follows rfl
  | flatMap => exact flatMap_follows sameRight callers sameLeft
  | joinBy => exact .lift (joinBy_along sameLeft sameRight)
  | maxBy => exact extremeBy_follows keyCallers sameRight sameLeft .greater
  | minBy => exact extremeBy_follows keyCallers sameRight sameLeft .less
  | distinctBy => exact distinctBy_follows sameRight callers sameLeft
  | groupBy => exact groupBy_follows callers sameRight sameLeft
  | orderBy =>
    refine orderBy_follows keyCallers sameRight sameLeft fun isNull notObject => ?_
    simpa [comparesFunctions, isNull, notObject] using comparable
  | groups => exact .lift (groups_along sameLeft sameRight)
  | fullMatch => exact .lift (fullMatch_along sameLeft sameRight)
  | splitBy => exact .lift (splitBy_along sameLeft sameRight)
  | range | rangeItems => exact .lift (range_along sameLeft sameRight)
  | pluck => exact pluck_follows callers sameRight sameLeft
  | log | logDebug | logInfo | logWarn | logError => exact logged_follows _ sameLeft sameRight
  | times => exact .lift (times_along sameLeft sameRight)
  | divide => exact .lift (divide_along sameLeft sameRight)
  | mapItems => exact mapItems_follows sameRight callers sameLeft
  | reduceItems => exact reduceItems_follows sameRight callers sameLeft
  | filterItems =>
    exact keepItems_follows (fun _ _ => invokeOrKeep_follows sameRight callers) sameLeft
  | flatMapItems =>
    exact spreadItems_follows (fun _ _ => invokeOrKeep_follows sameRight callers) sameLeft
  | distinctItems =>
    exact firstItems_follows (fun _ _ => invokeOrKeep_follows sameRight callers) sameLeft sameRight
  | equal | notEqual =>
    simp only [runTwo, bne, beq_of_same sameLeft sameRight (args comparable)]
    exact scalar_follows rfl
  | greater => exact ordered_follows sameLeft sameRight .greater (args comparable)
  | less => exact ordered_follows sameLeft sameRight .less (args comparable)
  | greaterEqual => exact ordered_follows sameLeft sameRight .greaterEqual (args comparable)
  | lessEqual => exact ordered_follows sameLeft sameRight .lessEqual (args comparable)
  | both | either =>
    simp only [runTwo, isTruthy_of_same sameLeft, isTruthy_of_same sameRight]
    exact scalar_follows rfl
  | _ => exact .throw _

end

/-- Arguments that look the same lead to the same, as long as functions need not be told apart. -/
theorem run_follows (ambient : Ambient)
    (callers : Caller.Follows refuses like like.Same call otherCall)
    (keyCallers : Caller.Follows refuses like like.SameKey keyCall otherCall) (builtin : Builtin)
    (same : List.Forall₂ like.Same args others) (comparable :
      Function.KeepsSame like.change ∨ builtin.comparesFunctions args = false) :
    (builtin.run ambient (if builtin.comparesResults then keyCall else call) args).Follows
      refuses like.Same (builtin.run ambient otherCall others) := by
  cases sameArguments_of_same same with
  | none => exact runNone_follows ambient builtin
  | one sameValue => exact runOne_follows ambient builtin sameValue comparable
  | two sameLeft sameRight =>
    exact runTwo_follows sameLeft sameRight callers keyCallers builtin comparable
  | more => exact .throw _

theorem runWary_follows (isRefusal : refuses .unspecified) (ambient : Ambient)
    (callers : Caller.Follows refuses like like.Same call otherCall) (builtin : Builtin)
    (same : List.Forall₂ like.Same args others) :
    (builtin.runWary ambient call args).Follows refuses like.Same
      (builtin.run ambient otherCall others) := by
  unfold runWary
  cases isWary : builtin.comparesFunctions args with
  | true => exact .refused rfl isRefusal
  | false =>
    exact run_follows ambient callers (Caller.onlyData_follows isRefusal callers) builtin same
      (.inr isWary)

/-- Where functions look the same just if they are equal, nothing need be refused. -/
theorem run_follows_of_keepsSame (keepsSame : Function.KeepsSame like.change) (ambient : Ambient)
    (callers : Caller.Follows refuses like like.Same call otherCall) (builtin : Builtin)
    (same : List.Forall₂ like.Same args others) :
    (builtin.run ambient call args).Follows refuses like.Same
      (builtin.run ambient otherCall others) := by
  have keyCallers : Caller.Follows refuses like like.SameKey call otherCall :=
    fun sameCallee sameArguments =>
      (callers sameCallee sameArguments).imp fun _ _ sameFound => ⟨sameFound, .inl keepsSame⟩
  simpa using run_follows ambient callers keyCallers builtin same (.inl keepsSame)

end Builtin

end Weave
