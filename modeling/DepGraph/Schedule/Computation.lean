import DepGraph.Schedule.Cell
import DepGraph.Schedule.Loop

/-!
# A cell and the script that computes it

A `Computation` is a cell on a loop of its own whose computation is a script.

* `Computation.offer` — a script is handed over to start the cell with; a refused one is closed.
* `Computation.start`, `Computation.attach`, `Computation.giveUp` — the operations of the cell.
* `Computation.settle` — carries out jobs until none is due.
-/

set_option autoImplicit false

namespace DepGraph

/-- The jobs of a computation: the script runs on, or a waiter is told. -/
inductive ComputationJob where
  | run
  | tell (w : Nat)
  deriving DecidableEq, Repr

/-- A cell, what is left of the script that computes it, and the events that it recorded. -/
structure Computation (ε φ α : Type) where
  loop : Loop ComputationJob := {}
  cell : Cell Unit φ α := {}
  script : Option (Script ε φ α) := none
  events : List ε := []
  /-- The scripts that were handed over in vain, in order. They are closed and can run no more. -/
  closed : List (Script ε φ α) := []
  deriving Repr

namespace Computation

variable {ε φ α : Type}

/-- Closes a script that has not begun. -/
def close (c : Computation ε φ α) (script : Script ε φ α) : Computation ε φ α :=
  { c with closed := c.closed ++ [script] }

/-- A script is handed over to start the cell with, while a loop is `running` or not. If the cell
starts, the first turn of the script is due; otherwise the script is closed. -/
def offer (c : Computation ε φ α) (running : Bool) (script : Script ε φ α) :
    Computation ε φ α × Option CellError :=
  match if running then c.cell.start else .error c.cell.startWithoutLoop with
  | .ok cell => ({ c with cell, script := some script, loop := c.loop.post .run }, none)
  | .error e => (c.close script, some e)

/-- Starts the cell with a script while a loop is running. -/
def start (c : Computation ε φ α) (script : Script ε φ α) :
    Except CellError (Computation ε φ α) :=
  match c.offer true script with
  | (c, none) => .ok c
  | (_, some e) => .error e

/-- Adds a waiter. -/
def attach (c : Computation ε φ α) : Except CellError (Computation ε φ α × Nat) :=
  match c.cell.attach none with
  | .ok (cell, w) => .ok ({ c with cell }, w)
  | .error e => .error e

/-- A waiter gives up. -/
def giveUp (c : Computation ε φ α) (w : Nat) : Computation ε φ α :=
  { c with cell := (c.cell.giveUp w).1 }

/-- Opens a gate. -/
def release (c : Computation ε φ α) (gate : Gate) : Computation ε φ α :=
  { c with loop := c.loop.release gate }

/-- Carries out one job. -/
def perform (c : Computation ε φ α) : ComputationJob → Computation ε φ α
  | .run =>
    match c.script with
    | none => c
    | some script =>
      match script.advance c.loop.isOpen with
      | (events, .held gate _ rest) =>
        { c with script := some rest, loop := c.loop.park gate .run, events := c.events ++ events }
      | (events, .ended ending) =>
        { c with
          script := none
          cell := c.cell.finish ending
          loop := c.loop.postAll (c.cell.pending.map .tell)
          events := c.events ++ events }
  | .tell w => { c with cell := (c.cell.tell w).1 }

/-- Carries out the job that is due first. -/
def step (c : Computation ε φ α) : Computation ε φ α :=
  match c.loop.next? with
  | none => c
  | some (job, loop) => { c with loop }.perform job

/-- Carries out as many jobs as given, or fewer if none is due any more. -/
def run : Nat → Computation ε φ α → Computation ε φ α
  | 0, c => c
  | n + 1, c => if c.loop.idle then c else run n c.step

/-- Carries out jobs until none is due: the script runs once at most while no gate is opened, and
every waiter is told once. -/
def settle (c : Computation ε φ α) : Computation ε φ α :=
  run (c.loop.ready.length + c.cell.waiters.length + 1) c

end Computation

end DepGraph
