import DepGraph.Resolution.Walk

/-!
# Runs

Between two jobs anything may be asked of a world: `Action` lists what, `World.apply` does it, and
`World.run` does a list of actions one after the other. Carrying out the job that is due first is
an action too, so that a list of actions is a schedule.

`env k` holds the injected functions of resolver `k`.
-/

set_option autoImplicit false

namespace DepGraph

/-- What may happen to a world. -/
inductive Action where
  /-- The job that is due first is carried out. -/
  | tick
  | add (name text : String)
  | setText (name text : String)
  | register (resolver : Nat) (address : String)
  | resolve (resolver : Nat) (name : String)
  | resolveWithoutLoop (resolver : Nat) (name : String)
  | giveUp (file : FileId) (waiter : Nat)
  | walk (resolver : Nat) (entries : List String)
  | cancelWalk (walk : Nat)
  | release (gate : Gate)
  deriving DecidableEq, Repr

namespace World

variable (env : Nat → Environment)

/-- Carries out a job. -/
def perform (w : World) : Job → World
  | .file id job => w.performFile id job
  | .walk k job => w.performWalk (env ((w.walks[k]?.map Walk.resolver).getD 0)) k job

/-- Carries out the job that is due first. -/
def tick (w : World) : World :=
  match w.loop.next? with
  | none => w
  | some (job, loop) => { w with loop }.perform env job

/-- Does one action. -/
def apply (w : World) : Action → World
  | .tick => w.tick env
  | .add name text => w.add name text
  | .setText name text => w.setText name text
  | .register resolver address => w.register resolver address
  | .resolve resolver name => (w.resolve (env resolver) resolver name none).1
  | .resolveWithoutLoop resolver name => (w.resolveWithoutLoop (env resolver) name none).1
  | .giveUp file waiter => w.giveUp file waiter
  | .walk resolver entries => (w.walk resolver entries).1
  | .cancelWalk k => w.cancelWalk k
  | .release gate => w.release gate

/-- Does a list of actions, one after the other. -/
def run (w : World) (actions : List Action) : World := actions.foldl (apply env) w

/-- Nothing is due. -/
def settled (w : World) : Bool := w.loop.idle

/-- Carries out jobs until none is due, at most as many as given. -/
def settle : Nat → World → World
  | 0, w => w
  | n + 1, w => if w.settled then w else settle n (w.tick env)

end World

end DepGraph
