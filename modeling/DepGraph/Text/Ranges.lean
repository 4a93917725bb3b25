/-!
# Sets of code points as tables of ranges

`inRanges table n` looks `n` up in a table of ascending, disjoint closed ranges by bisection.
-/

set_option autoImplicit false

namespace DepGraph.Text

/-- Bisection between the positions `lo` and `hi`; `fuel` halvings are enough for `2 ^ fuel`
ranges. -/
def bisectRanges (table : Array (Nat × Nat)) (n : Nat) : Nat → Nat → Nat → Bool
  | 0, _, _ => false
  | fuel + 1, lo, hi =>
    if lo < hi then
      let mid := (lo + hi) / 2
      match table[mid]? with
      | none => false
      | some (first, last) =>
        if n < first then bisectRanges table n fuel lo mid
        else if last < n then bisectRanges table n fuel (mid + 1) hi
        else true
    else false

/-- Whether `n` lies in one of the ranges. -/
def inRanges (table : Array (Nat × Nat)) (n : Nat) : Bool :=
  bisectRanges table n (table.size.log2 + 2) 0 table.size

end DepGraph.Text
