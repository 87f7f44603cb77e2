import Weave.Value.Order

namespace Weave

/-!
# Sorting

A stable sort by an order that may fail for some pairs.  The items that are in order
already are kept as a run; each further item is placed behind all items that it does
not come before.
-/

namespace Sorting

/-- The items after the first that continue a run; each is compared with the one before it. -/
def runFrom (goesOn : α → α → Except Fault Bool) (last : α) :
    List α → Except Fault (List α × List α)
  | [] => .ok ([], [])
  | item :: rest => do
    if ← goesOn item last then
      let (run, others) ← runFrom goesOn item rest
      return (item :: run, others)
    else
      return ([], item :: rest)

/-- Split items into a leading run, put in order, and the rest. -/
def leadingRun (less : α → α → Except Fault Bool) : List α → Except Fault (List α × List α)
  | [] => .ok ([], [])
  | [item] => .ok ([item], [])
  | first :: second :: rest => do
    if ← less second first then
      let (run, others) ← runFrom less second rest
      return ((first :: second :: run).reverse, others)
    else
      let (run, others) ← runFrom (fun item last => return !(← less item last)) second rest
      return (first :: second :: run, others)

/-- The place of an item among sorted ones, between two bounds, by halving. -/
def placeWithin (less : α → α → Except Fault Bool) (sorted : List α) (item : α) :
    Nat → Nat → Nat → Except Fault Nat
  | 0, low, _ => .ok low
  | fuel + 1, low, high => do
    if low < high then
      let middle := low + (high - low) / 2
      match sorted[middle]? with
      | some pivot =>
        if ← less item pivot then placeWithin less sorted item fuel low middle
        else placeWithin less sorted item fuel (middle + 1) high
      | none => return low
    else
      return low

/-- Place an item behind all sorted ones that it does not come before. -/
def place (less : α → α → Except Fault Bool) (sorted : List α) (item : α) :
    Except Fault (List α) := do
  let index ← placeWithin less sorted item (sorted.length + 1) 0 sorted.length
  return sorted.take index ++ item :: sorted.drop index

/-- Put items into a sorted list, one after the other. -/
def placeAll (less : α → α → Except Fault Bool) : List α → List α → Except Fault (List α)
  | sorted, [] => .ok sorted
  | sorted, item :: rest => do placeAll less (← place less sorted item) rest

/-- Sort items; equal ones keep their order. -/
def sortBy (less : α → α → Except Fault Bool) (items : List α) : Except Fault (List α) := do
  let (run, others) ← leadingRun less items
  placeAll less run others

/-- Whether a key with a number comes before another: by the keys, and by the numbers if they are
equal. -/
def numberedLess (left right : Value × Nat) : Except Fault Bool :=
  if left.1.same right.1 then .ok (left.2 < right.2) else left.1.less right.1

end Sorting

end Weave
