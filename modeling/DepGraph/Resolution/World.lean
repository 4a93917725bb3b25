import DepGraph.Resolution.Environment
import DepGraph.Resolution.Store

/-!
# The state of a run

A `World` is the store together with everything in flight: the registries of the resolvers, the
walks, the loop of jobs that all of them share, and the log.

A walk visits files level by level. In each round it fetches the texts that the store lacks, adds
them, resolves every file of the round, and goes on with the dependencies that the store lacks.
-/

set_option autoImplicit false

namespace DepGraph

/-- The jobs of one file's resolution. -/
inductive FileJob where
  /-- A job of the join of its specifiers. -/
  | join (job : JoinJob)
  /-- A waiter is told the outcome. -/
  | tell (waiter : Nat)
  deriving DecidableEq, Repr

/-- The jobs of one walk. -/
inductive WalkJob where
  /-- The walk begins. -/
  | start
  /-- A job of the join of the texts that the round fetches. -/
  | fetch (job : JoinJob)
  /-- The walk hears that the resolution of a file of the round has ended. -/
  | resolved (place : Nat)
  /-- All files of the round are resolved, or one has failed. -/
  | wake
  deriving DecidableEq, Repr

/-- What may be due. -/
inductive Job where
  | file (id : FileId) (job : FileJob)
  | walk (walk : Nat) (job : WalkJob)
  deriving DecidableEq, Repr

/-- Why a file cannot begin to be resolved. -/
inductive Refusal where
  /-- The store does not know the file. -/
  | notAdded (file : String)
  /-- Its specifiers cannot be read off its text. -/
  | unreadable (cause : Cause)
  /-- There is no loop to run on. -/
  | noLoop
  deriving DecidableEq, Repr

/-- How a walk fails. -/
inductive WalkFault where
  /-- A text could not be fetched. -/
  | fetch (cause : Cause)
  /-- A file could not begin to be resolved. -/
  | refused (refusal : Refusal)
  /-- The resolution of a file failed. -/
  | file (fault : Fault)
  deriving DecidableEq, Repr

/-- What a walk is doing. -/
inductive Phase where
  /-- It has not begun. -/
  | starting
  /-- It waits for the texts of the files of the round that the store lacks. -/
  | fetching (missing : List String)
  /-- It waits for the resolutions of the files of the round, each by a waiter of its own. -/
  | resolving (waiters : List (FileId × Nat)) (tally : Tally Fault Dependencies)
  | finished

/-- A walk over everything that can be reached from its entries. -/
structure Walk where
  resolver : Nat
  /-- The files of the current round. -/
  pending : List String
  /-- The files of earlier rounds, in order. -/
  visited : List String := []
  round : Nat := 0
  phase : Phase := .starting
  /-- The texts asked for in the last round that asked for any. They stay here when the walk is
  over, because requests still waiting carry on. -/
  fetches : Join Event Cause String := Join.ofScripts []
  /-- A cancellation has arrived and takes effect when the walk wakes. -/
  stopping : Bool := false
  outcome : Option (Ending WalkFault (List String)) := none

/-- The state of a run. -/
structure World where
  store : Store := {}
  /-- The registry of each resolver. -/
  registries : Nat → Registry := fun _ => {}
  walks : List Walk := []
  loop : Loop Job := {}
  log : List Event := []

namespace World

/-- Adds events to the log. -/
def record (w : World) (events : List Event) : World := { w with log := w.log ++ events }

/-- Gives a notice. -/
def note (w : World) (n : Notice) : World := w.record [.notice n]

/-- Makes a job due. -/
def post (w : World) (job : Job) : World := { w with loop := w.loop.post job }

/-- Changes the record of a file. -/
def modifyFile (w : World) (id : FileId) (change : Record → Record) : World :=
  { w with store := w.store.modify id change }

/-- Changes a walk. -/
def modifyWalk (w : World) (k : Nat) (change : Walk → Walk) : World :=
  { w with walks := w.walks.modify k change }

/-- Opens a gate. -/
def release (w : World) (gate : Gate) : World := { w with loop := w.loop.release gate }

/-- Adds a file to the store. -/
def add (w : World) (name text : String) : World :=
  let w := if w.store.contains name then w.note (.replacing name) else w
  { w with store := w.store.add name text }

/-- Changes the text of the file found under a name, in place. -/
def setText (w : World) (name text : String) : World :=
  match w.store.current? name with
  | some id => w.modifyFile id fun r => { r with text }
  | none => w

/-- Registers a declaration file with a resolver. -/
def register (w : World) (resolver : Nat) (address : String) : World :=
  let before := w.registries resolver
  let after := before.register address
  let notice := if before.contains address then .alreadyRegistered address
    else .registered address after.size
  { w with registries := fun k => if k = resolver then after else w.registries k }.note notice

/-- The text that stands for a resolver in messages. -/
def render (w : World) (resolver : Nat) : String :=
  "Resolver(files=" ++ toString w.store.size ++ ", declarations=" ++
    toString (w.registries resolver).size ++ ")"

end World

end DepGraph
