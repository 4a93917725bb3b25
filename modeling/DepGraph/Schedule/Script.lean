import DepGraph.Schedule.Ending

/-!
# Straight-line work

A `Script` is work that records events, waits at gates, and ends. It gives way to other work only
at a gate that is closed.

* `Script.advance` — runs a script to its next closed gate or to its end.
* `Script.ending` — how a script ends when nothing holds it up.
-/

set_option autoImplicit false

namespace DepGraph

/-- Gates are known by name. A gate is closed until it is opened, and stays open. -/
abbrev Gate := String

/-- Straight-line work with events `ε`, faults `φ` and a result `α`. -/
inductive Script (ε φ α : Type) where
  /-- Nothing is left to do. -/
  | finish (ending : Ending φ α)
  /-- Records an event and goes on. -/
  | emit (event : ε) (rest : Script ε φ α)
  /-- Waits for a gate. A cancellation that arrives here records the events `farewell` and ends
  the work. -/
  | hold (gate : Gate) (farewell : List ε) (rest : Script ε φ α)
  deriving Repr

/-- Where a script pauses: at its end, or at a closed gate. -/
inductive Pause (ε φ α : Type) where
  | ended (ending : Ending φ α)
  | held (gate : Gate) (farewell : List ε) (rest : Script ε φ α)
  deriving Repr

namespace Script

variable {ε φ α : Type}

/-- Runs to the next closed gate or to the end, and gives the events recorded on the way. -/
def advance (isOpen : Gate → Bool) : Script ε φ α → List ε × Pause ε φ α
  | finish ending => ([], .ended ending)
  | emit event rest =>
    let (events, pause) := advance isOpen rest
    (event :: events, pause)
  | hold gate farewell rest =>
    if isOpen gate then advance isOpen rest else ([], .held gate farewell rest)

/-- How the work ends when every gate is open. -/
def ending : Script ε φ α → Ending φ α
  | finish e => e
  | emit _ rest => ending rest
  | hold _ _ rest => ending rest

/-- The events recorded when every gate is open. -/
def events : Script ε φ α → List ε
  | finish _ => []
  | emit e rest => e :: events rest
  | hold _ _ rest => events rest

/-- Waits for several gates, one after the other. -/
def holdAll (farewell : List ε) (gates : List Gate) (rest : Script ε φ α) : Script ε φ α :=
  gates.foldr (fun gate next => .hold gate farewell next) rest

end Script

end DepGraph
