import DepGraph.Schedule.Script

/-!
# The ready queue and the gates

A `Loop` holds the jobs that are due, first come first served, and those that wait at closed gates
in the order in which they began to wait. Opening a gate makes its waiting jobs due in that order.
-/

set_option autoImplicit false

namespace DepGraph

/-- Jobs that are due, jobs that wait, and the gates opened so far. -/
structure Loop (J : Type) where
  ready : List J := []
  waiting : List (Gate × J) := []
  opened : List Gate := []
  deriving Repr

namespace Loop

variable {J : Type}

def isOpen (loop : Loop J) (gate : Gate) : Bool := loop.opened.contains gate

/-- Makes a job due, after all that are due already. -/
def post (loop : Loop J) (job : J) : Loop J := { loop with ready := loop.ready ++ [job] }

/-- Makes several jobs due, in order. -/
def postAll (loop : Loop J) (jobs : List J) : Loop J := { loop with ready := loop.ready ++ jobs }

/-- Lets a job wait at a gate. -/
def park (loop : Loop J) (gate : Gate) (job : J) : Loop J :=
  { loop with waiting := loop.waiting ++ [(gate, job)] }

/-- Opens a gate and makes the jobs that wait there due. -/
def release (loop : Loop J) (gate : Gate) : Loop J :=
  { ready := loop.ready ++ (loop.waiting.filter (·.1 == gate)).map (·.2)
    waiting := loop.waiting.filter (·.1 != gate)
    opened := if loop.isOpen gate then loop.opened else loop.opened ++ [gate] }

/-- Makes a waiting job due at once, whatever its gate; a job that is not waiting stays as it is. -/
def withdraw [DecidableEq J] (loop : Loop J) (job : J) : Loop J :=
  if loop.waiting.any (·.2 = job) then
    { loop with
      ready := loop.ready ++ [job]
      waiting := loop.waiting.filter (·.2 ≠ job) }
  else loop

/-- Withdraws several jobs, in order. -/
def withdrawAll [DecidableEq J] (loop : Loop J) (jobs : List J) : Loop J :=
  jobs.foldl withdraw loop

/-- Nothing is due. -/
def idle (loop : Loop J) : Bool := loop.ready.isEmpty

/-- The job that is due first, and the loop without it. -/
def next? (loop : Loop J) : Option (J × Loop J) :=
  match loop.ready with
  | [] => none
  | job :: rest => some (job, { loop with ready := rest })

end Loop

end DepGraph
