import DepGraph.Schedule.Ending

/-!
# A cell that is computed once

A `Cell` holds the outcome of a computation that is started at most once, and those who wait for
it. Starting again and waiting before the start are refused. A waiter can give up; the computation
never notices.

* `Cell.start`, `Cell.finish` — the computation begins and ends.
* `Cell.attach` — adds a waiter; `Cell.tell` gives one its outcome; `Cell.giveUp` cancels one.
-/

set_option autoImplicit false

namespace DepGraph

/-- What the computation of a cell has come to. -/
inductive Stage (φ α : Type) where
  | unstarted
  | inProgress
  | ended (ending : Ending φ α)
  deriving DecidableEq, Repr

/-- The four states that can be told apart from outside. -/
inductive CellState where
  | unstarted
  | inProgress
  | done
  | failed
  deriving DecidableEq, Repr

/-- The name of a state. -/
def CellState.name : CellState → String
  | unstarted => "unstarted"
  | inProgress => "in_progress"
  | done => "done"
  | failed => "failed"

/-- Why an operation on a cell is refused. -/
inductive CellError where
  | alreadyStarted
  | notStarted
  | noLoop
  deriving DecidableEq, Repr

/-- The wording of a refusal. -/
def CellError.message : CellError → String
  | alreadyStarted => "resolution already started"
  | notStarted => "resolution has not been started"
  | noLoop => "no running event loop"

/-- Somebody who waits for the outcome, with who is to be told of it, if anybody is. -/
structure Waiter (τ φ α : Type) where
  listener : Option τ := none
  outcome : Option (Ending φ α) := none
  deriving DecidableEq, Repr

/-- A computation's stage, and its waiters in the order in which they came. -/
structure Cell (τ φ α : Type) where
  stage : Stage φ α := .unstarted
  waiters : List (Waiter τ φ α) := []
  deriving DecidableEq, Repr

namespace Cell

variable {τ φ α : Type}

def state (c : Cell τ φ α) : CellState :=
  match c.stage with
  | .unstarted => .unstarted
  | .inProgress => .inProgress
  | .ended (.returned _) => .done
  | .ended _ => .failed

/-- The result, once the computation has returned one. -/
def result? (c : Cell τ φ α) : Option α :=
  match c.stage with
  | .ended (.returned a) => some a
  | _ => none

/-- How the computation failed, once it has. -/
def failure? (c : Cell τ φ α) : Option (Ending φ α) :=
  match c.stage with
  | .ended (.returned _) => none
  | .ended e => some e
  | _ => none

/-- The computation begins. -/
def begun (c : Cell τ φ α) : Cell τ φ α := { c with stage := .inProgress }

/-- The computation begins, unless it has begun before. -/
def start (c : Cell τ φ α) : Except CellError (Cell τ φ α) :=
  match c.stage with
  | .unstarted => .ok c.begun
  | _ => .error .alreadyStarted

/-- Without a running loop no computation begins. -/
def startWithoutLoop (c : Cell τ φ α) : CellError :=
  match c.stage with
  | .unstarted => .noLoop
  | _ => .alreadyStarted

/-- Adds a waiter and gives its number. One that comes after the end has its outcome at once. -/
def attach (c : Cell τ φ α) (listener : Option τ) : Except CellError (Cell τ φ α × Nat) :=
  let add (outcome : Option (Ending φ α)) :=
    ({ c with waiters := c.waiters ++ [{ listener, outcome }] }, c.waiters.length)
  match c.stage with
  | .unstarted => .error .notStarted
  | .inProgress => .ok (add none)
  | .ended ending => .ok (add (some ending))

/-- Whether waiter `w` is there and has no outcome. -/
def isPending (c : Cell τ φ α) (w : Nat) : Bool :=
  (c.waiters[w]?.map fun x => x.outcome.isNone).getD false

/-- The numbers of the waiters without an outcome. -/
def pending (c : Cell τ φ α) : List Nat := (List.range c.waiters.length).filter c.isPending

/-- The computation ends; its waiters are yet to be told. -/
def finish (c : Cell τ φ α) (ending : Ending φ α) : Cell τ φ α := { c with stage := .ended ending }

/-- Gives waiter `w` its outcome, unless it has one, and says who is to be told. -/
def settleWaiter (c : Cell τ φ α) (w : Nat) (outcome : Ending φ α) : Cell τ φ α × Option τ :=
  match c.waiters[w]? with
  | some { listener, outcome := none } =>
    ({ c with waiters := c.waiters.set w { listener, outcome := some outcome } }, listener)
  | _ => (c, none)

/-- Tells waiter `w` how the computation ended. -/
def tell (c : Cell τ φ α) (w : Nat) : Cell τ φ α × Option τ :=
  match c.stage with
  | .ended ending => c.settleWaiter w ending
  | _ => (c, none)

/-- Waiter `w` gives up, if it has no outcome yet. -/
def giveUp (c : Cell τ φ α) (w : Nat) : Cell τ φ α × Option τ := c.settleWaiter w .cancelled

/-- The text that stands for a cell in messages. -/
def render (c : Cell τ φ α) : String := "PendingResolution(" ++ c.state.name ++ ")"

end Cell

end DepGraph
