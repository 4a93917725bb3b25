import DepGraph.Schedule.Ending

/-!
# Counting the parts of a whole

A `Tally` is told, one by one, how the parts of a whole have ended. It reaches its verdict with the
first part that did not return, or with the last part if all returned; then it holds the values in
the order of the parts, whatever the order in which they came. The verdict never changes.
-/

set_option autoImplicit false

namespace DepGraph

/-- What is known of the parts, and the verdict on the whole once there is one. -/
structure Tally (φ α : Type) where
  heard : List (Option (Ending φ α))
  verdict : Option (Ending φ (List α)) := none
  deriving Repr

namespace Tally

variable {φ α : Type}

/-- Nothing is known of `n` parts. -/
def start (n : Nat) : Tally φ α := { heard := List.replicate n none }

/-- The values of the parts, if all are known to have returned. -/
def values? : List (Option (Ending φ α)) → Option (List α)
  | [] => some []
  | some (.returned a) :: rest => (values? rest).map (a :: ·)
  | _ => none

/-- The verdict once part `i` is known to have ended as given, no earlier verdict standing. -/
def judge (heard : List (Option (Ending φ α))) : Ending φ α → Option (Ending φ (List α))
  | .raised f => some (.raised f)
  | .cancelled => some .cancelled
  | .returned _ => (values? heard).map .returned

/-- Takes note of how part `i` ended. -/
def hear (t : Tally φ α) (i : Nat) (ending : Ending φ α) : Tally φ α :=
  let heard := t.heard.set i (some ending)
  { heard
    verdict := match t.verdict with
      | some v => some v
      | none => judge heard ending }

/-- Whether hearing of part `i` brings the verdict. -/
def decides (t : Tally φ α) (i : Nat) (ending : Ending φ α) : Bool :=
  t.verdict.isNone && (t.hear i ending).verdict.isSome

end Tally

end DepGraph
