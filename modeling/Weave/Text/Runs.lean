namespace Weave.Text

/-!
# Classes of characters

A class of characters is given by the lengths of the runs of codes outside and inside of it, in turn
from the code zero on.
-/

def inRuns : List Nat → Nat → Bool
  | outside :: inside :: rest, code =>
    if code < outside then false
    else if code < outside + inside then true
    else inRuns rest (code - (outside + inside))
  | _, _ => false

end Weave.Text
