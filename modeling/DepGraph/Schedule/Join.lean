import DepGraph.Schedule.Loop
import DepGraph.Schedule.Tally

/-!
# Members that run together

A `Join` runs several scripts side by side, its members. Each member takes turns: a turn runs it to
its next closed gate or to its end. The join hears of every end in a turn of its own, so that
members already due still run before a failure is dealt with.

* `Join.turn` — one turn of one member.
* `Join.hear` — the join learns that a member has ended.
* `Join.stop` — cancels the members that have not ended; each has one last turn.
* `Join.perform` — carries out a job of a join on the loop that it shares with others.
-/

set_option autoImplicit false

namespace DepGraph

/-- Where one member of a join stands. -/
inductive Member (ε φ α : Type) where
  /-- It goes on with `rest` at its next turn; a cancellation before that records `farewell`. -/
  | active (farewell : List ε) (rest : Script ε φ α)
  /-- It was cancelled, and ends at its next turn. -/
  | stopped (farewell : List ε)
  | ended (ending : Ending φ α)
  deriving Repr

namespace Member

variable {ε φ α : Type}

def isActive : Member ε φ α → Bool
  | active .. => true
  | _ => false

def ending? : Member ε φ α → Option (Ending φ α)
  | ended e => some e
  | _ => none

/-- A member that has not ended is cancelled. -/
def stop : Member ε φ α → Member ε φ α
  | active farewell _ => stopped farewell
  | m => m

end Member

/-- Members that run together, and what the join has heard of them. -/
structure Join (ε φ α : Type) where
  members : List (Member ε φ α)
  tally : Tally φ α
  deriving Repr

/-- The jobs of a join. -/
inductive JoinJob where
  /-- Every member gets its first turn. -/
  | launch
  /-- Member `i` takes a turn. -/
  | turn (i : Nat)
  /-- The join hears that member `i` has ended. -/
  | hear (i : Nat)
  /-- Whoever waits for the join wakes up to its verdict. -/
  | wake
  deriving DecidableEq, Repr

namespace Join

variable {ε φ α : Type}

/-- A join of scripts none of which has begun. -/
def ofScripts (scripts : List (Script ε φ α)) : Join ε φ α :=
  { members := scripts.map (.active [])
    tally := Tally.start scripts.length }

/-- Where a turn leaves a member: waiting at a gate, or at its end. -/
inductive Halt where
  | at (gate : Gate)
  | finished
  | idle
  deriving DecidableEq, Repr

/-- One turn of a member. -/
def turnOf (isOpen : Gate → Bool) : Member ε φ α → List ε × Member ε φ α × Halt
  | .active _ script =>
    match script.advance isOpen with
    | (events, .ended ending) => (events, .ended ending, .finished)
    | (events, .held gate farewell rest) => (events, .active farewell rest, .at gate)
  | .stopped farewell => (farewell, .ended .cancelled, .finished)
  | .ended ending => ([], .ended ending, .idle)

/-- One turn of member `i`: the events it records, the join after it, and where it halts. -/
def turn (isOpen : Gate → Bool) (join : Join ε φ α) (i : Nat) : List ε × Join ε φ α × Halt :=
  match join.members[i]? with
  | none => ([], join, .idle)
  | some m =>
    let (events, m, halt) := turnOf isOpen m
    (events, { join with members := join.members.set i m }, halt)

/-- The join hears of the end of member `i`; the truth value says whether that brings its
verdict. -/
def hear (join : Join ε φ α) (i : Nat) : Join ε φ α × Bool :=
  match join.members[i]?.bind Member.ending? with
  | some ending =>
    ({ join with tally := join.tally.hear i ending }, join.tally.decides i ending)
  | none => (join, false)

/-- Cancels every member that has not ended. -/
def stop (join : Join ε φ α) : Join ε φ α :=
  { join with members := join.members.map Member.stop }

/-- The members that have not ended and were not cancelled, in order. -/
def active (join : Join ε φ α) : List Nat :=
  (List.range join.members.length).filter fun i => (join.members[i]?.map Member.isActive).getD false

variable {J : Type}

/-- Carries out a job of a join on a loop whose jobs include those of the join by way of `wrap`. -/
def perform (wrap : JoinJob → J) (loop : Loop J) (join : Join ε φ α) :
    JoinJob → List ε × Loop J × Join ε φ α
  | .launch =>
    ([], loop.postAll ((List.range join.members.length).map fun i => wrap (.turn i)), join)
  | .turn i =>
    let (events, join, halt) := join.turn loop.isOpen i
    let loop := match halt with
      | .at gate => loop.park gate (wrap (.turn i))
      | .finished => loop.post (wrap (.hear i))
      | .idle => loop
    (events, loop, join)
  | .hear i =>
    let (join, decided) := join.hear i
    ([], if decided then loop.post (wrap .wake) else loop, join)
  | .wake => ([], loop, join)

/-- Cancels what has not ended and makes the last turns due. -/
def abandon [DecidableEq J] (wrap : JoinJob → J) (loop : Loop J) (join : Join ε φ α) :
    Loop J × Join ε φ α :=
  (loop.withdrawAll (join.active.map fun i => wrap (.turn i)), join.stop)

end Join

end DepGraph
