import Weave.Expr.Same
import Weave.Value.Kind

namespace Weave

/-!
# Equality of values

Numbers are equal by value, whatever their kind.  Lists are equal item by item and
objects key by key in any order, whether or not they come from XML.  Functions are
equal when they were written the same way in the same place.
-/

namespace Calendar

/-- Times are equal if they are at one instant. -/
def Clock.same (left right : Clock) : Bool :=
  left.offset.isSome == right.offset.isSome && left.instant == right.instant

/-- Moments are equal if they are at one instant. -/
def Moment.same (left right : Moment) : Bool :=
  left.comparable right && left.instant == right.instant

end Calendar

mutual

/-- Whether two values are equal. -/
def Value.same : Value → Value → Bool
  | .null, .null => true
  | .text left, .text right => left == right
  | .bytes left, .bytes right => left == right
  | .bytes left, .buffer right => left == right
  | .buffer left, .bytes right => left == right
  | .buffer left, .buffer right => left == right
  | .list _ left, .list _ right => sameItems left right
  | .tuple left, .tuple right => sameItems left right
  | .object _ left, .object _ right => left.length == right.length && sameEntries left right
  | .date left, .date right => left == right
  | .clock left, .clock right => left.same right
  | .moment left, .moment right => left.same right
  | .period left, .period right => left == right
  | .function left, .function right => left.same right
  | left, right =>
    match left.number?, right.number? with
    | some left, some right => left.same right
    | _, _ => false

/-- Whether lists are equal item by item. -/
def sameItems : List Value → List Value → Bool
  | [], [] => true
  | left :: lefts, right :: rights => left.same right && sameItems lefts rights
  | _, _ => false

/-- Whether every entry has an equal one under its key. -/
def sameEntries : List (Key × Value) → List (Key × Value) → Bool
  | [], _ => true
  | (key, left) :: lefts, rights =>
    (match rights.lookup key with
      | some right => left.same right
      | none => false) && sameEntries lefts rights

/-- Whether every variable has an equal one under its name. -/
def sameBindings : List (String × Value) → List (String × Value) → Bool
  | [], _ => true
  | (name, left) :: lefts, rights =>
    (match rights.lookup name with
      | some right => left.same right
      | none => false) && sameBindings lefts rights

/-- Whether two functions were written the same way in the same place. -/
def Function.same : Function → Function → Bool
  | .builtin left, .builtin right => left == right
  | .lambda leftParameters leftBody leftCaptured leftPayload,
    .lambda rightParameters rightBody rightCaptured rightPayload =>
      Expr.sameParameters leftParameters rightParameters && Expr.same leftBody rightBody &&
        leftCaptured.length == rightCaptured.length && sameBindings leftCaptured rightCaptured &&
        leftPayload.same rightPayload
  | .implicit leftBody leftCaptured leftPayload _,
    .implicit rightBody rightCaptured rightPayload _ =>
      Expr.same leftBody rightBody && leftCaptured.length == rightCaptured.length &&
        sameBindings leftCaptured rightCaptured && leftPayload.same rightPayload
  | .declared leftFrame left, .declared rightFrame right =>
    leftFrame == rightFrame && left.same right
  | .overloaded left, .overloaded right =>
    left.length == right.length &&
      (left.zip right).all fun (left, right) => left.1 == right.1 && left.2.same right.2
  | _, _ => false

end

instance : BEq Value :=
  ⟨Value.same⟩

end Weave
