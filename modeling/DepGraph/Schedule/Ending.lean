/-!
# How work ends

A piece of work returns a value, raises a fault, or is cancelled.
-/

set_option autoImplicit false

namespace DepGraph

/-- How a piece of work ends. -/
inductive Ending (φ α : Type) where
  | returned (value : α)
  | raised (fault : φ)
  | cancelled
  deriving DecidableEq, Repr

namespace Ending

variable {φ α : Type}

def value? : Ending φ α → Option α
  | returned a => some a
  | _ => none

def isReturned : Ending φ α → Bool
  | returned _ => true
  | _ => false

end Ending

end DepGraph
