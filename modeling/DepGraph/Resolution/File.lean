import DepGraph.Resolution.Policy
import DepGraph.Resolution.World

/-!
# Resolving one file

`World.resolve` asks for the dependencies of a file. The first to ask starts the resolution, which
is due before the request returns; everyone who asks gets a waiter. The specifiers are resolved
side by side; the first failure cancels the rest and is the failure of the file.

* `Record.perform` — a job of a resolution, on whatever loop it is due.
* `World.resolve`, `World.resolveWithoutLoop` — requests.
* `World.giveUp` — a waiter cancels its wait.
* `World.performFile` — a job of a resolution on the loop that all files share.
-/

set_option autoImplicit false

namespace DepGraph

/-! ## The record of a file and its jobs -/

/-- What a job of a file's resolution leaves behind: the record and the loop after it, what it
logs, and who is to learn that a wait is over. -/
structure Done (J : Type) where
  record : Record
  loop : Loop J
  events : List Event := []
  listener : Option WalkRef := none

namespace Record

variable {J : Type}

/-- The resolution starts, and its work is to be done. -/
def start (r : Record) (found : Extraction) (work : Work) : Record :=
  { r with
    isLib := found.isLib
    cell := r.cell.begun
    work := some work }

/-- The resolution ends, and its waiters are to be told. -/
def finish (r : Record) (wrap : FileJob → J) (loop : Loop J)
    (ending : Ending Fault Dependencies) : Done J :=
  { record := { r with cell := r.cell.finish ending }
    loop := loop.postAll (r.cell.pending.map fun x => wrap (.tell x)) }

/-- All specifiers have their addresses: the dependencies are put together with what is registered
by now. -/
def complete (r : Record) (wrap : FileJob → J) (file : String) (registry : Registry)
    (loop : Loop J) (work : Work) (addresses : List (Option String)) : Done J :=
  let found := (work.occurrences.map (·.text)).zip addresses
  let info := Dependencies.build file found registry
  let direct := (Dependencies.direct info.mappings).length
  { { r with dependencies := some info }.finish wrap loop (.returned info) with
    events := [.notice (.resolved file direct (info.list.length - direct))] }

/-- A job of the join of the specifiers, done by the join alone. -/
def performJoin (r : Record) (wrap : FileJob → J) (loop : Loop J) (work : Work) (job : JoinJob) :
    Done J :=
  let (events, loop, join) := work.join.perform (fun j => wrap (.join j)) loop job
  { record := { r with work := some { work with join } }, loop, events }

/-- A specifier has failed: the others are cancelled, and the resolution ends with the failure. -/
def fail (r : Record) [DecidableEq J] (wrap : FileJob → J) (loop : Loop J) (work : Work)
    (ending : Ending Fault Dependencies) : Done J :=
  let (loop, join) := work.join.abandon (fun j => wrap (.join j)) loop
  { r with work := some { work with join } }.finish wrap loop ending

/-- A job of the resolution, on a loop whose jobs include those of the file by way of `wrap`. -/
def perform (r : Record) [DecidableEq J] (wrap : FileJob → J) (file : String)
    (registries : Nat → Registry) (loop : Loop J) (job : FileJob) : Done J :=
  match job, r.work with
  | .tell waiter, _ =>
    let (cell, listener) := r.cell.tell waiter
    { record := { r with cell }, loop, listener }
  | .join .launch, some work =>
    if work.join.members.isEmpty then
      r.complete wrap file (registries work.resolver) loop work []
    else r.performJoin wrap loop work .launch
  | .join .wake, some work =>
    match work.join.tally.verdict with
    | some (.returned addresses) =>
      r.complete wrap file (registries work.resolver) loop work addresses
    | some (.raised fault) => r.fail wrap loop work (.raised fault)
    | some .cancelled => r.fail wrap loop work .cancelled
    | none => { record := r, loop }
  | .join job, some work => r.performJoin wrap loop work job
  | .join _, none => { record := r, loop }

end Record

namespace World

/-! ## Requests -/

/-- The specifiers of a file as work to be done side by side. -/
def workOf (env : Environment) (options : Options) (resolver : Nat) (id : FileId)
    (found : Extraction) : Work :=
  let occurrences := found.occurrences
  let scripts := occurrences.mapIdx fun i o =>
    (Policy.inquiry options id.name o).script env id i 0
  { resolver, occurrences, join := Join.ofScripts scripts }

/-- Reads the specifiers off the text of a file that nobody has asked for yet. -/
def extract (env : Environment) (w : World) (id : FileId) (text : String) :
    World × Except Cause Extraction :=
  let w := (w.note (.starting id.name)).record [.extracting id text]
  match env.extract text with
  | .ok (found, notices) => (w.record (notices.map .notice), .ok found)
  | .error cause => (w, .error cause)

/-- Starts the resolution of a file whose specifiers are known. -/
def start (env : Environment) (w : World) (resolver : Nat) (id : FileId) (found : Extraction) :
    World :=
  let work := workOf env w.store.options resolver id found
  (w.modifyFile id fun r => r.start found work).post (.file id (.join .launch))

/-- Adds a waiter to a file whose resolution was started. -/
def attach (w : World) (id : FileId) (listener : Option WalkRef) : World × Option Nat :=
  match w.store.record? id with
  | none => (w, none)
  | some r =>
    match r.cell.attach listener with
    | .ok (cell, number) => (w.modifyFile id fun r => { r with cell }, some number)
    | .error _ => (w, none)

/-- Asks a resolver for the dependencies of the file found under a name. The first request for a
file starts its resolution; every one gets a waiter. -/
def resolve (env : Environment) (w : World) (resolver : Nat) (name : String)
    (listener : Option WalkRef) : World × Except Refusal (FileId × Nat) :=
  match w.store.current? name, w.store.find? name with
  | some id, some r =>
    match r.cell.stage with
    | .unstarted =>
      match extract env w id r.text with
      | (w, .ok found) =>
        match attach (start env w resolver id found) id listener with
        | (w, some number) => (w, .ok (id, number))
        | (w, none) => (w, .error (.notAdded name))
      | (w, .error cause) => (w, .error (.unreadable cause))
    | _ =>
      match attach w id listener with
      | (w, some number) => (w, .ok (id, number))
      | (w, none) => (w, .error (.notAdded name))
  | _, _ => (w, .error (.notAdded name))

/-- The same request where no loop is running: nothing can be started. -/
def resolveWithoutLoop (env : Environment) (w : World) (name : String)
    (listener : Option WalkRef) : World × Except Refusal (FileId × Nat) :=
  match w.store.current? name, w.store.find? name with
  | some id, some r =>
    match r.cell.stage with
    | .unstarted =>
      match extract env w id r.text with
      | (w, .ok _) => (w, .error .noLoop)
      | (w, .error cause) => (w, .error (.unreadable cause))
    | _ =>
      match attach w id listener with
      | (w, some number) => (w, .ok (id, number))
      | (w, none) => (w, .error (.notAdded name))
  | _, _ => (w, .error (.notAdded name))

/-! ## Waiters -/

/-- The job by which a walk learns of the outcome of one of its waiters. -/
def heardJob (ref : WalkRef) : Job := .walk ref.walk (.resolved ref.place)

/-- Makes it due that whoever listens to a waiter learns of its outcome. -/
def alert (w : World) (listener : Option WalkRef) : World :=
  match listener with
  | some ref => w.post (heardJob ref)
  | none => w

/-- A waiter gives up, if it has no outcome yet. -/
def giveUp (w : World) (id : FileId) (waiter : Nat) : World :=
  match w.store.record? id with
  | none => w
  | some r =>
    let (cell, listener) := r.cell.giveUp waiter
    (w.modifyFile id fun r => { r with cell }).alert listener

/-- What became of a waiter so far. -/
def outcome? (w : World) (id : FileId) (waiter : Nat) : Option (Ending Fault Dependencies) := do
  let r ← w.store.record? id
  let x ← r.cell.waiters[waiter]?
  x.outcome

/-! ## Jobs -/

/-- A job of a file's resolution. -/
def performFile (w : World) (id : FileId) (job : FileJob) : World :=
  match w.store.record? id with
  | none => w
  | some r =>
    let done := r.perform (.file id) id.name w.registries w.loop job
    (({ w with loop := done.loop }.modifyFile id fun _ => done.record).record done.events).alert
      done.listener

end World

end DepGraph
