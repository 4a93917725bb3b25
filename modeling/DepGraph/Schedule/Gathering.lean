import DepGraph.Schedule.Join

/-!
# All or nothing

A `Gathering` runs scripts together and returns their values in the order of the scripts, or fails
as a whole with the first failure, in which case whatever still waits is cancelled.

* `Gathering.step` — carries out the job that is due first.
* `Gathering.settle` — carries out jobs until none is due.
* `Gathering.release` — opens a gate.
-/

set_option autoImplicit false

namespace DepGraph

/-- A join on a loop of its own, and its outcome once there is one. -/
structure Gathering (ε φ α : Type) where
  loop : Loop JoinJob
  join : Join ε φ α
  outcome : Option (Ending φ (List α)) := none
  events : List ε := []
  deriving Repr

namespace Gathering

variable {ε φ α : Type}

/-- Nothing has run yet. -/
def ofScripts (scripts : List (Script ε φ α)) : Gathering ε φ α :=
  { loop := { ready := [.launch] }, join := Join.ofScripts scripts }

/-- With no members there is nothing to wait for. A failure cancels the members that have not
ended. -/
def perform (g : Gathering ε φ α) (job : JoinJob) : Gathering ε φ α :=
  match job with
  | .launch =>
    if g.join.members.isEmpty then { g with outcome := some (.returned []) }
    else
      let (events, loop, join) := g.join.perform id g.loop .launch
      { g with loop, join, events := g.events ++ events }
  | .wake =>
    match g.join.tally.verdict with
    | some (.returned values) => { g with outcome := some (.returned values) }
    | some failure =>
      let (loop, join) := g.join.abandon id g.loop
      { g with loop, join, outcome := some failure }
    | none => g
  | job =>
    let (events, loop, join) := g.join.perform id g.loop job
    { g with loop, join, events := g.events ++ events }

/-- Carries out the job that is due first. -/
def step (g : Gathering ε φ α) : Gathering ε φ α :=
  match g.loop.next? with
  | none => g
  | some (job, loop) => { g with loop }.perform job

/-- Carries out as many jobs as given, or fewer if none is due any more. -/
def run : Nat → Gathering ε φ α → Gathering ε φ α
  | 0, g => g
  | n + 1, g => if g.loop.idle then g else run n g.step

/-- The greatest number of jobs that can still be carried out while no gate is opened: launching,
two turns and one hearing of each member, and one waking. -/
def bound (g : Gathering ε φ α) : Nat :=
  g.loop.ready.length + 4 * g.join.members.length + 2

/-- Carries out jobs until none is due. -/
def settle (g : Gathering ε φ α) : Gathering ε φ α := run g.bound g

/-- Opens a gate. -/
def release (g : Gathering ε φ α) (gate : Gate) : Gathering ε φ α :=
  { g with loop := g.loop.release gate }

end Gathering

end DepGraph
