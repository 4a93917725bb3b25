import DepGraph.Resolution.File

/-!
# Walking the graph

* `World.walk` — a walk is requested; it begins in a turn of its own.
* `World.startRound` — the files of a round that the store lacks are fetched.
* `World.resolveRound` — the files of a round are resolved.
* `World.cancelWalk` — a walk is cancelled, together with what it waits for.
* `World.performWalk` — a job of a walk.
-/

set_option autoImplicit false

namespace DepGraph.World

/-- Requests a walk and gives its number. -/
def walk (w : World) (resolver : Nat) (entries : List String) : World × Nat :=
  let k := w.walks.length
  let request : Walk := { resolver, pending := Dependencies.distinct entries }
  ({ w with walks := w.walks ++ [request] }.post (.walk k .start), k)

/-- The walk ends. -/
def endWalk (w : World) (k : Nat) (ending : Ending WalkFault (List String)) : World :=
  w.modifyWalk k fun x => { x with phase := .finished, outcome := some ending }

/-- The request for one text as work. -/
def fetchScript (env : Environment) (id : FetchId) (name : String) : Script Event Cause String :=
  let reply := env.source id name
  .emit (.fetched id.walk (.source name)) <|
    Script.holdAll [.fetchCancelled id.walk (.source name)] reply.gates <| .finish reply.outcome

/-- Asks for the dependencies of the files of a round, one after the other, until one is
refused. -/
def resolveAll (env : Environment) (resolver walk : Nat) :
    Nat → World → List String → World × Except Refusal (List (FileId × Nat))
  | _, w, [] => (w, .ok [])
  | place, w, name :: rest =>
    match w.resolve env resolver name (some ⟨walk, place⟩) with
    | (w, .error refusal) => (w, .error refusal)
    | (w, .ok waiter) =>
      match resolveAll env resolver walk (place + 1) w rest with
      | (w, .error refusal) => (w, .error refusal)
      | (w, .ok waiters) => (w, .ok (waiter :: waiters))

/-- The places of the waiters that have their outcome already. -/
def settledPlaces (w : World) (waiters : List (FileId × Nat)) : List Nat :=
  (List.range waiters.length).filter fun i =>
    match waiters[i]? with
    | some (id, waiter) => (w.outcome? id waiter).isSome
    | none => false

/-- Resolves the files of a round. The walk hears at once of those that were resolved before. -/
def resolveRound (env : Environment) (w : World) (k : Nat) (x : Walk) : World :=
  match resolveAll env x.resolver k 0 w x.pending with
  | (w, .error refusal) => w.endWalk k (.raised (.refused refusal))
  | (w, .ok waiters) =>
    let jobs := (w.settledPlaces waiters).map fun i => Job.walk k (.resolved i)
    let w := w.modifyWalk k fun x =>
      { x with phase := .resolving waiters (Tally.start waiters.length) }
    { w with loop := w.loop.postAll jobs }

/-- Begins a round: fetches what the store lacks, or resolves at once if it lacks nothing. With no
files left the walk returns what it has visited. -/
def startRound (env : Environment) (w : World) (k : Nat) (x : Walk) : World :=
  if x.pending.isEmpty then w.endWalk k (.returned x.visited)
  else
    let missing := x.pending.filter fun name => !w.store.contains name
    if missing.isEmpty then w.resolveRound env k x
    else
      let scripts := missing.mapIdx fun i name => fetchScript env ⟨k, x.round, i⟩ name
      let join := Join.ofScripts scripts
      let (_, loop, join) := join.perform (fun j => .walk k (.fetch j)) w.loop .launch
      { w with loop }.modifyWalk k fun x => { x with phase := .fetching missing, fetches := join }

/-- The texts of a round have come: the files are added and resolved. -/
def addRound (env : Environment) (w : World) (k : Nat) (x : Walk) (missing texts : List String) :
    World :=
  let w := (missing.zip texts).foldl (fun w (name, text) => w.add name text) w
  w.resolveRound env k x

/-- The dependencies of a round that the store lacks, in order of first occurrence. -/
def unfetched (w : World) (infos : List Dependencies) : List String :=
  Dependencies.distinct ((infos.flatMap (·.list)).filter fun name => !w.store.contains name)

/-- The files of a round are resolved: the next round is made of what they depend on and the store
lacks. -/
def finishRound (env : Environment) (w : World) (k : Nat) (x : Walk) (infos : List Dependencies) :
    World :=
  let fresh := w.unfetched infos
  let next : Walk :=
    { x with
      visited := Dependencies.distinct (x.visited ++ x.pending)
      pending := fresh
      round := x.round + 1 }
  let w := w.note (.walked x.pending.length fresh.length)
  (w.modifyWalk k fun _ => next).startRound env k next

/-- The walk wakes: the round has its verdict. -/
def wakeWalk (env : Environment) (w : World) (k : Nat) (x : Walk) : World :=
  if x.stopping then w.endWalk k .cancelled
  else
    match x.phase with
    | .fetching missing =>
      match x.fetches.tally.verdict with
      | some (.returned texts) => w.addRound env k x missing texts
      | some (.raised cause) => w.endWalk k (.raised (.fetch cause))
      | some .cancelled => w.endWalk k .cancelled
      | none => w
    | .resolving _ tally =>
      match tally.verdict with
      | some (.returned infos) => w.finishRound env k x infos
      | some (.raised fault) => w.endWalk k (.raised (.file fault))
      | some .cancelled => w.endWalk k .cancelled
      | none => w
    | _ => w

/-- The walk hears of the outcome of one of its waiters. -/
def hearWalk (w : World) (k : Nat) (x : Walk) (place : Nat) : World :=
  match x.phase with
  | .resolving waiters tally =>
    match waiters[place]?.bind fun (id, waiter) => w.outcome? id waiter with
    | some ending =>
      let w := w.modifyWalk k fun x =>
        { x with phase := .resolving waiters (tally.hear place ending) }
      if tally.decides place ending then w.post (.walk k .wake) else w
    | none => w
  | _ => w

/-- A job of a walk. Requests for texts that are still waiting when their walk is over carry on. -/
def performWalk (env : Environment) (w : World) (k : Nat) (job : WalkJob) : World :=
  match w.walks[k]? with
  | none => w
  | some x =>
    match job with
    | .start => if x.stopping then w.endWalk k .cancelled else w.startRound env k x
    | .fetch .wake => w.wakeWalk env k x
    | .fetch job =>
      let (events, loop, join) := x.fetches.perform (fun j => .walk k (.fetch j)) w.loop job
      ({ w with loop }.modifyWalk k fun x => { x with fetches := join }).record events
    | .resolved place => w.hearWalk k x place
    | .wake => w.wakeWalk env k x

/-- Cancels the texts that a walk waits for; the truth value says whether there was anything to
cancel. -/
def cancelFetches (w : World) (k : Nat) (x : Walk) : World × Bool :=
  if x.fetches.tally.verdict.isSome ∨ x.fetches.active.isEmpty then (w, false)
  else
    let (loop, join) := x.fetches.abandon (fun j => .walk k (.fetch j)) w.loop
    ({ w with loop }.modifyWalk k fun x => { x with fetches := join }, true)

/-- Cancels the waiters of a walk, never the resolutions that they wait for; the truth value says
whether there was anything to cancel. -/
def cancelWaiters (w : World) (waiters : List (FileId × Nat))
    (tally : Tally Fault Dependencies) : World × Bool :=
  let open_ := waiters.filter fun (id, waiter) => (w.outcome? id waiter).isNone
  if tally.verdict.isSome ∨ open_.isEmpty then (w, false)
  else (open_.foldl (fun w (id, waiter) => w.giveUp id waiter) w, true)

/-- Cancels a walk: what it waits for is cancelled, or, if nothing of that can be, the walk ends
when it wakes. -/
def cancelWalk (w : World) (k : Nat) : World :=
  match w.walks[k]? with
  | none => w
  | some x =>
    let (w, taken) := match x.phase with
      | .starting => (w, false)
      | .fetching _ => w.cancelFetches k x
      | .resolving waiters tally => w.cancelWaiters waiters tally
      | .finished => (w, true)
    if taken then w else w.modifyWalk k fun x => { x with stopping := true }

end DepGraph.World
