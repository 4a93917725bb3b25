/-!
# Powers of two and of ten

The two scales of numbers of double precision: `twoTo n` is the weight of a binary place, `tenTo
n` that of a decimal one.
-/

set_option autoImplicit false

namespace DepGraph

/-- Two to the power `n`. -/
def twoTo (n : Nat) : Nat := Nat.pow 2 n

/-- Ten to the power `n`. -/
def tenTo (n : Nat) : Nat := Nat.pow 10 n

end DepGraph
