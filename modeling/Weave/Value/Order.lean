import Weave.Value.Equal

namespace Weave

/-!
# Order of values

Numbers, texts, bytes, lists, dates, times and periods are ordered among
themselves.  Lists are compared at the first items that differ.  All other pairs
have no order.
-/

/-- The four ways to compare. -/
inductive Comparison where
  | less
  | lessEqual
  | greater
  | greaterEqual
  deriving Repr, DecidableEq

namespace Comparison

/-- Whether a comparison holds for an order. -/
def holds : Comparison → Ordering → Bool
  | .less, order => order == .lt
  | .lessEqual, order => order != .gt
  | .greater, order => order == .gt
  | .greaterEqual, order => order != .lt

/-- Whether a comparison holds; it fails for numbers without an order. -/
def holdsIf (comparison : Comparison) : Option Ordering → Bool
  | some order => comparison.holds order
  | none => false

end Comparison

/-- The order of two lists by a three-way comparison of their items. -/
def orderLists (order : α → α → Ordering) : List α → List α → Ordering
  | [], [] => .eq
  | [], _ :: _ => .lt
  | _ :: _, [] => .gt
  | left :: lefts, right :: rights =>
    match order left right with
    | .eq => orderLists order lefts rights
    | different => different

/-- Texts in the order of their characters. -/
def orderTexts (left right : String) : Ordering :=
  orderLists (fun left right => compare left.toNat right.toNat) left.toList right.toList

/-- Bytes in their order. -/
def orderBytes (left right : List UInt8) : Ordering :=
  orderLists (fun left right => compare left.toNat right.toNat) left right

/-- Values without an order are refused. -/
def unordered : Except Fault α :=
  .error (.defect .operands)

mutual

/-- Compare two values that have an order. -/
def Value.compare (comparison : Comparison) : Value → Value → Except Fault Bool
  | .text left, .text right => .ok (comparison.holds (orderTexts left right))
  | .bytes left, .bytes right => .ok (comparison.holds (orderBytes left right))
  | .bytes left, .buffer right => .ok (comparison.holds (orderBytes left right))
  | .buffer left, .bytes right => .ok (comparison.holds (orderBytes left right))
  | .buffer left, .buffer right => .ok (comparison.holds (orderBytes left right))
  | .list _ left, .list _ right => compareItems comparison left right
  | .tuple left, .tuple right => compareItems comparison left right
  | .date left, .date right =>
    .ok (comparison.holds (Ord.compare left.ordinal right.ordinal))
  | .clock left, .clock right =>
    if left.offset.isSome == right.offset.isSome then
      .ok (comparison.holds (Ord.compare left.instant right.instant))
    else unordered
  | .moment left, .moment right =>
    if left.comparable right then
      .ok (comparison.holds (Ord.compare left.instant right.instant))
    else unordered
  | .period left, .period right =>
    .ok (comparison.holds (Ord.compare left.microseconds right.microseconds))
  | left, right =>
    match left.number?, right.number? with
    | some left, some right => .ok (comparison.holdsIf (Number.compare? left right))
    | _, _ => unordered

/-- Compare two lists at the first items that differ, or by their lengths. -/
def compareItems (comparison : Comparison) : List Value → List Value → Except Fault Bool
  | [], [] => .ok (comparison.holds .eq)
  | [], _ :: _ => .ok (comparison.holds .lt)
  | _ :: _, [] => .ok (comparison.holds .gt)
  | left :: lefts, right :: rights =>
    if left.same right then compareItems comparison lefts rights
    else left.compare comparison right

end

/-- Whether one value comes before another. -/
def Value.less (left right : Value) : Except Fault Bool :=
  left.compare .less right

end Weave
