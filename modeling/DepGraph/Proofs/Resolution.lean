import DepGraph.Proofs.Course
import DepGraph.Proofs.Runs
import DepGraph.Proofs.Policies

/-!
# The resolution of a file, from its lane

A lane is idle until it is asked for; then its specifiers are under way, each along its own script;
then it is closed, with what the join of the specifiers came to.

* `Lane.Idle`, `Lane.Underway`, `Lane.Closed` — the three phases of a lane.
* `Lane.Underway.turn`, `Lane.Closed.turn` — what a turn does in each, and `Lane.effort`, which it
  makes less while the specifiers are under way.
* `Lane.Touch.idle`, `Lane.Touch.underway`, `Lane.Touch.closed` — and what a touch does.
-/

set_option autoImplicit false

namespace DepGraph

/-! ## The join of the specifiers -/

/-- The job of the join of the specifiers, if it is one. -/
def FileJob.join? : FileJob → Option JoinJob
  | .join job => some job
  | .tell _ => none

theorem FileJob.join?_unwraps : Loop.Unwraps FileJob.join? FileJob.join := by
  intro j k
  cases j with
  | join job => simp [FileJob.join?]
  | tell waiter => simp [FileJob.join?]

@[simp] theorem FileJob.join?_join (job : JoinJob) : FileJob.join? (.join job) = some job := rfl

@[simp] theorem FileJob.join?_tell (waiter : Nat) : FileJob.join? (.tell waiter) = none := rfl

/-- The jobs of the join of the specifiers. -/
def Lane.joint (l : Lane) : Loop JoinJob := l.loop.select FileJob.join?

/-- The jobs of the join are carried out on its part of the loop. -/
theorem Join.perform_joint {ε φ α : Type} (join : Join ε φ α) (loop : Loop FileJob)
    (job : JoinJob) :
    (join.perform FileJob.join loop job).1 =
        (join.perform id (loop.select FileJob.join?) job).1 ∧
      (join.perform FileJob.join loop job).2.1.select FileJob.join? =
        (join.perform id (loop.select FileJob.join?) job).2.1 ∧
      (join.perform FileJob.join loop job).2.2 =
        (join.perform id (loop.select FileJob.join?) job).2.2 := by
  have h := Join.perform_select (FileJob.join?_unwraps.carries id) loop join job
  rw [← h]
  exact ⟨rfl, rfl, rfl⟩

/-- What is given up is given up on the join's part of the loop. -/
theorem Join.abandon_joint {ε φ α : Type} (join : Join ε φ α) (loop : Loop FileJob) :
    (join.abandon FileJob.join loop).1.select FileJob.join? =
        (join.abandon id (loop.select FileJob.join?)).1 ∧
      (join.abandon FileJob.join loop).2 = (join.abandon id (loop.select FileJob.join?)).2 := by
  have h := Join.abandon_select (FileJob.join?_unwraps.carries id) loop join
  rw [← h]
  exact ⟨rfl, rfl⟩

/-- The waiter to be told, if the job is to tell one. -/
def FileJob.tell? : FileJob → Option Nat
  | .join _ => none
  | .tell waiter => some waiter

/-- The waiters that are to be told. -/
def Lane.told (l : Lane) : Loop Nat := l.loop.select FileJob.tell?

theorem FileJob.mem_tell {loop : Loop FileJob} {k : Nat} :
    .tell k ∈ loop.ready ↔ k ∈ (loop.select FileJob.tell?).ready := by
  have hunwraps : Loop.Unwraps FileJob.tell? FileJob.tell := by
    intro job k
    cases job <;> simp [FileJob.tell?]
  exact (Loop.mem_select hunwraps).symm

/-- The jobs of the join make it due to tell nobody. -/
theorem Join.told_perform {ε φ α : Type} (join : Join ε φ α) (loop : Loop FileJob)
    (job : JoinJob) :
    (join.perform FileJob.join loop job).2.1.select FileJob.tell? = loop.select FileJob.tell? :=
  Join.perform_select_none (fun _ => rfl) loop join job

/-- The specifiers of a file as work. -/
def World.scriptsOf (env : Environment) (options : Options) (id : FileId)
    (occurrences : List Occurrence) : List (Script Event Fault (Option String)) :=
  occurrences.mapIdx fun i o => (Policy.inquiry options id.name o).script env id i 0

theorem World.getElem?_scriptsOf (env : Environment) (options : Options) (id : FileId)
    (occurrences : List Occurrence) (i : Nat) :
    (scriptsOf env options id occurrences)[i]? =
      (occurrences[i]?).map fun o => (Policy.inquiry options id.name o).script env id i 0 := by
  simp [scriptsOf]

theorem World.workOf_eq (env : Environment) (options : Options) (resolver : Nat) (id : FileId)
    (found : Extraction) : workOf env options resolver id found =
      ⟨resolver, found.occurrences, Join.ofScripts (scriptsOf env options id found.occurrences)⟩ :=
  rfl

/-! ## What is recorded on the way -/

section Logs

variable {ε φ α : Type} {p : ε → Prop}

/-- Whatever a script may log, what it has recorded so far is of that kind. -/
theorem Script.Reaches.logs {s rest : Script ε φ α} {events : List ε} (h : s.Reaches events rest)
    (hs : s.Logs p) : (∀ e ∈ events, p e) ∧ rest.Logs p := by
  induction h with
  | refl s => exact ⟨by simp, hs⟩
  | emit e _ ih =>
    obtain ⟨hevents, hrest⟩ := ih hs.2
    exact ⟨by simpa using ⟨hs.1, hevents⟩, hrest⟩
  | hold gate farewell _ ih => exact ih hs.2

theorem Script.Leaves.logs {s : Script ε φ α} {events farewell : List ε}
    (h : s.Leaves events farewell) (hs : s.Logs p) :
    (∀ e ∈ events, p e) ∧ ∀ e ∈ farewell, p e := by
  rcases h with ⟨rfl, rfl⟩ | ⟨gate, rest, h⟩
  · simp
  · obtain ⟨hevents, hrest⟩ := h.logs hs
    exact ⟨hevents, hrest.1⟩

theorem Member.Follows.logs {s : Script ε φ α} {events : List ε} {m : Member ε φ α}
    (h : m.Follows s events) (hs : s.Logs p) : ∀ e ∈ events, p e := by
  cases m with
  | active farewell rest => exact (h.elim (·.1.logs hs) (absurd · id)).1
  | stopped farewell => exact (h.elim (absurd · id) (Script.Leaves.logs · hs)).1
  | ended e =>
    rcases h with h | ⟨-, before, farewell, rfl, h⟩
    · exact (Script.Reaches.logs h hs).1
    · obtain ⟨hbefore, hfarewell⟩ := h.logs hs
      intro e he
      rcases List.mem_append.mp he with he | he
      · exact hbefore e he
      · exact hfarewell e he

end Logs

namespace Lane

/-! ## Phases -/

/-- Nobody has asked for the file. Its text may have been read in vain. -/
structure Idle (id : FileId) (l : Lane) : Prop where
  stage : l.record.cell.stage = .unstarted
  work : l.record.work = none
  dependencies : l.record.dependencies = none
  waiters : l.record.cell.waiters = []
  ready : l.loop.ready = []
  waiting : l.loop.waiting = []
  log : ∀ e ∈ l.log, ∃ text, e = .extracting id text

/-- The calls that a lane has logged for each occurrence are among those events. -/
def Recorded (id : FileId) (events : Nat → List Event) (l : Lane) : Prop :=
  ∀ i, l.log.filter (Event.isBy id i) = (events i).filter (Event.isBy id i)

/-- The specifiers are under way. -/
structure Underway (env : Environment) (options : Options) (id : FileId) (resolver : Nat)
    (occurrences : List Occurrence) (l : Lane) : Prop where
  stage : l.record.cell.stage = .inProgress
  dependencies : l.record.dependencies = none
  tells : l.told.ready = [] ∧ l.told.waiting = []
  running : ∃ join events, l.record.work = some ⟨resolver, occurrences, join⟩ ∧
    Join.Running (World.scriptsOf env options id occurrences) events l.joint join ∧
    l.Recorded id events

/-- What a file comes to when its specifiers come to `verdict`: its dependencies, put together with
what is registered by then, or their failure. -/
def outcomeOf (file : String) (occurrences : List Occurrence) (registry : Registry) :
    Ending Fault (List (Option String)) → Ending Fault Dependencies
  | .returned addresses =>
    .returned (Dependencies.build file ((occurrences.map (·.text)).zip addresses) registry)
  | .raised fault => .raised fault
  | .cancelled => .cancelled

/-- What a join came to, if it had any members. -/
def Yields {ε φ α : Type} (join : Join ε φ α) (verdict : Ending φ (List α)) : Prop :=
  join.tally.verdict = some verdict ∨ join.members = [] ∧ verdict = .returned []

/-- The resolution has ended. -/
structure Closed (env : Environment) (options : Options) (id : FileId) (resolver : Nat)
    (occurrences : List Occurrence) (ending : Ending Fault Dependencies) (l : Lane) : Prop where
  stage : l.record.cell.stage = .ended ending
  dependencies : l.record.dependencies = ending.value?
  tells : ∀ k x, l.record.cell.waiters[k]? = some x → x.outcome = none → .tell k ∈ l.loop.ready
  finished : ∃ join events verdict registry, l.record.work = some ⟨resolver, occurrences, join⟩ ∧
    Join.Over (World.scriptsOf env options id occurrences) events l.joint join ∧
    l.Recorded id events ∧ Yields join verdict ∧
    ending = outcomeOf id.name occurrences registry verdict

variable {env : Environment} {options : Options} {id : FileId} {resolver : Nat}
  {occurrences : List Occurrence} {l : Lane}

theorem outcomeOf_failure (file : String) (registry : Registry)
    (verdict : Ending Fault (List (Option String))) :
    (outcomeOf file occurrences registry verdict).failure? = verdict.failure? := by
  cases verdict <;> rfl

/-! ## Turns -/

/-- What the jobs of the join leave of a lane, nobody having woken. -/
def carried (id : FileId) (l : Lane) (loop : Loop FileJob) (work : Work) (job : JoinJob) : Lane :=
  let (events, loop, join) := work.join.perform FileJob.join loop job
  { record := { l.record with work := some { work with join } }
    loop
    log := l.log ++ events.filter (Event.isOf id) }

theorem turn_eq {job : FileJob} {loop : Loop FileJob} (h : l.loop.next? = some (job, loop))
    (registries : Nat → Registry) :
    l.turn id registries =
      { record := (l.record.perform (fun job => job) id.name registries loop job).record
        loop := (l.record.perform (fun job => job) id.name registries loop job).loop
        log := l.log ++
          (l.record.perform (fun job => job) id.name registries loop job).events.filter
            (Event.isOf id) } := by
  simp [turn, h]

/-- A waiter is told. -/
theorem turn_tell {k : Nat} {loop : Loop FileJob} (h : l.loop.next? = some (.tell k, loop))
    (registries : Nat → Registry) :
    l.turn id registries = { l.setCell (l.record.cell.tell k).1 with loop } := by
  simp [turn_eq h, Record.perform, setCell]

/-- The join goes on. -/
theorem turn_carried {job : JoinJob} {loop : Loop FileJob} {work : Work}
    (h : l.loop.next? = some (.join job, loop)) (hwork : l.record.work = some work)
    (hwake : job ≠ .wake) (hlaunch : job = .launch → work.join.members ≠ [])
    (registries : Nat → Registry) : l.turn id registries = l.carried id loop work job := by
  have hperform : l.record.perform (fun job => job) id.name registries loop (.join job) =
      l.record.performJoin (fun job => job) loop work job := by
    cases job with
    | launch => simp [Record.perform, hwork, hlaunch rfl]
    | wake => exact absurd rfl hwake
    | turn i => simp [Record.perform, hwork]
    | hear i => simp [Record.perform, hwork]
  rw [turn_eq h, hperform]
  rfl

theorem joint_next? {job : JoinJob} {loop : Loop FileJob}
    (h : l.loop.next? = some (.join job, loop)) :
    l.joint.next? = some (job, loop.select FileJob.join?) :=
  World.next?_select h rfl

/-- What a job of the join logs is recorded of the member whose turn it is. -/
theorem Recorded.carried {events : Nat → List Event} (h : l.Recorded id events)
    {loop : Loop FileJob} {work : Work} {job : JoinJob}
    (halong : Join.Along Member.Follows (World.scriptsOf env options id occurrences)
      (Join.noted job (work.join.perform FileJob.join loop job).1 events)
      (work.join.perform FileJob.join loop job).2.2) :
    (l.carried id loop work job).Recorded id
      (Join.noted job (work.join.perform FileJob.join loop job).1 events) := by
  intro k
  simp only [Lane.carried, List.filter_append, Event.filter_isBy, h k]
  by_cases hk : job = .turn k
  · simp only [Join.noted, if_pos hk, List.filter_append]
  · rw [Join.noted, if_neg hk]
    -- Another member logs nothing of this one.
    have hnone : (work.join.perform FileJob.join loop job).1.filter (Event.isBy id k) = [] := by
      cases job with
      | launch => rfl
      | wake => rfl
      | hear i => rfl
      | turn i =>
        have hik : k ≠ i := fun e => hk (e ▸ rfl)
        cases hm : (work.join.perform FileJob.join loop (.turn i)).2.2.members[i]? with
        | none =>
          have hnil : (work.join.perform FileJob.join loop (.turn i)).1 = [] := by
            simp only [Join.perform, Join.turn] at hm ⊢
            split at hm
            · simp
            · rename_i m hsome
              have hlt := (List.getElem?_eq_some_iff.mp hsome).1
              simp [hlt] at hm
          rw [hnil]
          rfl
        | some m =>
          obtain ⟨s, hs, hfollows⟩ := halong.member hm
          rw [World.getElem?_scriptsOf] at hs
          obtain ⟨o, -, rfl⟩ := Option.map_eq_some_iff.mp hs
          have hown := hfollows.logs (Inquiry.script_ownBy env id i 0 _)
          rw [Join.noted, if_pos rfl] at hown
          exact Event.filter_ownBy (fun e he => hown e (List.mem_append_right _ he)) hik
    rw [hnone, List.append_nil]

/-! ## The end -/

/-- What the end leaves of a lane: its waiters are to be told. -/
def closing (l : Lane) (loop : Loop FileJob) (work : Work) (ending : Ending Fault Dependencies) :
    Lane :=
  { record := { l.record with
      dependencies := ending.value?
      cell := l.record.cell.finish ending
      work := some work }
    loop := loop.postAll (l.record.cell.pending.map .tell)
    log := l.log }

theorem joint_closing (l : Lane) (loop : Loop FileJob) (work : Work)
    (ending : Ending Fault Dependencies) :
    (l.closing loop work ending).joint = loop.select FileJob.join? := by
  have hnone : (l.record.cell.pending.map FileJob.tell).filterMap FileJob.join? = [] := by
    simp [List.filterMap_map]
  simp [joint, closing, hnone]

theorem closed_closing {loop : Loop FileJob} {join : Join Event Fault (Option String)}
    {events : Nat → List Event} {verdict : Ending Fault (List (Option String))}
    (hover : Join.Over (World.scriptsOf env options id occurrences) events
      (loop.select FileJob.join?) join)
    (hrecorded : l.Recorded id events) (hyields : Yields join verdict) (registry : Registry) :
    Closed env options id resolver occurrences (outcomeOf id.name occurrences registry verdict)
      (l.closing loop ⟨resolver, occurrences, join⟩
        (outcomeOf id.name occurrences registry verdict)) := by
  refine ⟨rfl, rfl, fun k x hk hx => ?_, join, events, verdict, registry, rfl, ?_, hrecorded,
    hyields, rfl⟩
  · exact List.mem_append_right _ (List.mem_map_of_mem (Cell.mem_pending hk hx))
  · rw [joint_closing]
    exact hover

/-- All specifiers have their addresses. -/
theorem turn_complete {job : JoinJob} {loop : Loop FileJob} {work : Work}
    {addresses : List (Option String)} (h : l.loop.next? = some (.join job, loop))
    (hwork : l.record.work = some work)
    (hjob : job = .wake ∧ work.join.tally.verdict = some (.returned addresses) ∨
      job = .launch ∧ work.join.members = [] ∧ addresses = []) (registries : Nat → Registry) :
    l.turn id registries = l.closing loop work
      (outcomeOf id.name work.occurrences (registries work.resolver) (.returned addresses)) := by
  have hperform : l.record.perform (fun job => job) id.name registries loop (.join job) =
      l.record.complete (fun job => job) id.name (registries work.resolver) loop work
        addresses := by
    rcases hjob with ⟨rfl, hv⟩ | ⟨rfl, hm, rfl⟩
    · simp [Record.perform, hwork, hv]
    · simp [Record.perform, hwork, hm]
  rw [turn_eq h, hperform]
  simp [Record.complete, Record.finish, closing, outcomeOf, Ending.value?, hwork, Event.isOf]

/-- A specifier has failed. -/
theorem turn_fail {loop : Loop FileJob} {work : Work} {v : Ending Fault (List (Option String))}
    {failure : Ending Fault Empty} (h : l.loop.next? = some (.join .wake, loop))
    (hwork : l.record.work = some work) (hv : work.join.tally.verdict = some v)
    (hf : v.failure? = some failure) (hd : l.record.dependencies = none)
    (registries : Nat → Registry) :
    l.turn id registries =
      l.closing (work.join.abandon FileJob.join loop).1
        { work with join := (work.join.abandon FileJob.join loop).2 }
        (outcomeOf id.name work.occurrences (registries work.resolver) v) := by
  rw [turn_eq h]
  cases v with
  | returned addresses => cases hf
  | raised fault =>
    simp [Record.perform, hwork, hv, Record.fail, Record.finish, closing, outcomeOf, Ending.value?,
      hd]
  | cancelled =>
    simp [Record.perform, hwork, hv, Record.fail, Record.finish, closing, outcomeOf, Ending.value?,
      hd]

/-- What is left to do for a file whose specifiers are under way. -/
def effort (l : Lane) : Nat :=
  match l.record.work with
  | some work => Join.effort l.joint work.join
  | none => 0

/-- The failure that the resolution is bound to end with. -/
def failing? (l : Lane) : Option (Ending Fault Empty) :=
  l.record.work.bind fun work => Join.failing l.joint work.join

theorem failing?_eq {work : Work} (h : l.record.work = some work) :
    l.failing? = Join.failing l.joint work.join := by
  simp [failing?, h]

/-- What a turn of a file whose specifiers are under way can be: a job of their join, or the end. -/
theorem Underway.turn_cases (h : Underway env options id resolver occurrences l) {job : FileJob}
    {loop : Loop FileJob} (hnext : l.loop.next? = some (job, loop)) (registries : Nat → Registry) :
    (∃ job' join events, job = .join job' ∧ l.record.work = some ⟨resolver, occurrences, join⟩ ∧
      Join.Running (World.scriptsOf env options id occurrences) events l.joint join ∧
      l.Recorded id events ∧ job' ≠ .wake ∧ (job' = .launch → join.members ≠ []) ∧
      l.turn id registries = l.carried id loop ⟨resolver, occurrences, join⟩ job') ∨
    ∃ ending, Closed env options id resolver occurrences ending (l.turn id registries) ∧
      l.failing? = ending.failure? ∧
      (l.turn id registries).record.cell = l.record.cell.finish ending ∧
      ∃ join loop', l.record.work = some ⟨resolver, occurrences, join⟩ ∧
        loop'.opened = l.loop.opened ∧
        (join.Resting ∧
            l.turn id registries = l.closing loop' ⟨resolver, occurrences, join⟩ ending ∨
          l.turn id registries = l.closing loop' ⟨resolver, occurrences, join.stop⟩ ending) := by
  obtain ⟨join, events, hwork, hrunning, hrecorded⟩ := h.running
  obtain ⟨-, hopened, hready⟩ := Loop.waiting_next? hnext
  cases job with
  | tell k =>
    have hmem : k ∈ l.told.ready := FileJob.mem_tell.mp (by simp [hready])
    rw [h.tells.1] at hmem
    cases hmem
  | join job =>
    have hjoint := joint_next? hnext
    by_cases hnil : job = .launch ∧ join.members = []
    · right
      obtain ⟨rfl, hnil⟩ := hnil
      rw [turn_complete hnext hwork (.inr ⟨rfl, hnil, rfl⟩), failing?_eq hwork]
      exact ⟨_, closed_closing (hrunning.nothing hjoint hnil) hrecorded (.inr ⟨hnil, rfl⟩) _,
        Join.failing_nil (hrunning.launch hnil).2 hnil _, rfl, join, loop, hwork, hopened,
        .inl ⟨Join.resting_nil hnil, rfl⟩⟩
    by_cases hwake : job = .wake
    · right
      subst hwake
      have hload := Loop.load_pos_of_next? hjoint
      rw [hrunning.wake] at hload
      obtain ⟨v, hv⟩ : ∃ v, join.tally.verdict = some v := by
        cases hv : join.tally.verdict with
        | none => simp [hv] at hload
        | some v => exact ⟨v, rfl⟩
      have hne : join.members ≠ [] := fun hnil => by
        rw [(hrunning.launch hnil).2] at hv
        cases hv
      have hfailing : l.failing? = v.failure? :=
        (failing?_eq hwork).trans (Join.failing_of_verdict hv _)
      cases hf : v.failure? with
      | none =>
        obtain ⟨addresses, rfl⟩ := Ending.failure?_eq_none.mp hf
        rw [turn_complete hnext hwork (.inl ⟨rfl, hv⟩)]
        exact ⟨_, closed_closing (hrunning.finish hjoint hv hne) hrecorded (.inl hv) _, hfailing,
          rfl, join, loop, hwork, hopened,
          .inl ⟨Join.resting_of_returned hrunning.accounts hrunning.sound hv, rfl⟩⟩
      | some failure =>
        rw [turn_fail hnext hwork hv hf h.dependencies]
        have hyields : Yields (join.abandon FileJob.join loop).2 v := .inl hv
        refine ⟨_, closed_closing ?_ hrecorded hyields _,
          hfailing.trans (outcomeOf_failure _ _ _).symm, rfl, join, _, hwork,
          (Loop.extends_withdrawAll loop _).2.trans hopened, .inr rfl⟩
        obtain ⟨hloop, hjoin⟩ := join.abandon_joint loop
        have hover := hrunning.giveUp hjoint hv hne
        rw [← hloop, ← hjoin] at hover
        exact hover
    · have hlaunch : job = .launch → join.members ≠ [] := fun hl hm => hnil ⟨hl, hm⟩
      exact .inl ⟨job, join, events, rfl, hwork, hrunning, hrecorded, hwake, hlaunch,
        turn_carried hnext hwork hwake hlaunch registries⟩

/-- What a job of their join leaves of a file whose specifiers are under way. -/
theorem Underway.carried (h : Underway env options id resolver occurrences l) {job : JoinJob}
    {loop : Loop FileJob} (hnext : l.loop.next? = some (.join job, loop))
    {join : Join Event Fault (Option String)} {events : Nat → List Event}
    (hrunning : Join.Running (World.scriptsOf env options id occurrences) events l.joint join)
    (hrecorded : l.Recorded id events) (hwake : job ≠ .wake)
    (hlaunch : job = .launch → join.members ≠ []) :
    Underway env options id resolver occurrences
      (l.carried id loop ⟨resolver, occurrences, join⟩ job) := by
  obtain ⟨hevents, hloop, hjoin⟩ := join.perform_joint loop job
  have hafter := hrunning.perform (joint_next? hnext) hwake hlaunch
  rw [← hevents, ← hloop, ← hjoin] at hafter
  have htold : (l.carried id loop ⟨resolver, occurrences, join⟩ job).told = l.told :=
    (join.told_perform loop job).trans (World.select_next? hnext rfl)
  exact ⟨h.stage, h.dependencies, htold ▸ h.tells, _, _, rfl, hafter,
    hrecorded.carried (hafter.along.mono fun _ _ _ => .inl)⟩

/-- **A turn of a file whose specifiers are under way** leaves less to do, or closes it. -/
theorem Underway.turn (h : Underway env options id resolver occurrences l) {job : FileJob}
    {loop : Loop FileJob} (hnext : l.loop.next? = some (job, loop)) (registries : Nat → Registry) :
    (Underway env options id resolver occurrences (l.turn id registries) ∧
      (l.turn id registries).effort < l.effort) ∨
    ∃ ending, Closed env options id resolver occurrences ending (l.turn id registries) := by
  rcases h.turn_cases hnext registries with
    ⟨job, join, events, rfl, hwork, hrunning, hrecorded, hwake, hlaunch, hturn⟩ |
      ⟨ending, hclosed, -⟩
  · left
    rw [hturn]
    refine ⟨h.carried hnext hrunning hrecorded hwake hlaunch, ?_⟩
    obtain ⟨-, hloop, hjoin⟩ := join.perform_joint loop job
    have hless := hrunning.accounts.effort_perform (joint_next? hnext)
    rw [← hloop, ← hjoin] at hless
    simpa [effort, hwork, Lane.carried, joint] using hless
  · exact .inr ⟨ending, hclosed⟩

/-- What a turn of a file that is closed can be: a waiter is told, or its join goes on. -/
theorem Closed.turn_cases {ending : Ending Fault Dependencies}
    (h : Closed env options id resolver occurrences ending l) {job : FileJob} {loop : Loop FileJob}
    (hnext : l.loop.next? = some (job, loop)) (registries : Nat → Registry) :
    (∃ k, job = .tell k ∧
      l.turn id registries = { l.setCell (l.record.cell.settleWaiter k ending).1 with loop }) ∨
    ∃ job' join events verdict registry, job = .join job' ∧
      l.record.work = some ⟨resolver, occurrences, join⟩ ∧
      Join.Over (World.scriptsOf env options id occurrences) events l.joint join ∧
      l.Recorded id events ∧ Yields join verdict ∧
      ending = outcomeOf id.name occurrences registry verdict ∧
      l.turn id registries = l.carried id loop ⟨resolver, occurrences, join⟩ job' := by
  obtain ⟨join, events, verdict, registry, hwork, hover, hrecorded, hyields, hending⟩ := h.finished
  cases job with
  | tell k =>
    rw [turn_tell hnext, Cell.tell_of_ended h.stage]
    exact .inl ⟨k, rfl, rfl⟩
  | join job =>
    have hload := Loop.load_pos_of_next? (joint_next? hnext)
    have hwake : job ≠ .wake := by
      rintro rfl
      have := hover.wake
      omega
    have hlaunch : job ≠ .launch := by
      rintro rfl
      have := hover.launch
      omega
    exact .inr ⟨job, join, events, verdict, registry, rfl, hwork, hover, hrecorded, hyields,
      hending, turn_carried hnext hwork hwake (fun hl => absurd hl hlaunch) registries⟩

/-- **A turn of a file that is closed** leaves it closed with the same outcome. -/
theorem Closed.turn {ending : Ending Fault Dependencies}
    (h : Closed env options id resolver occurrences ending l) (registries : Nat → Registry) :
    Closed env options id resolver occurrences ending (l.turn id registries) := by
  cases hnext : l.loop.next? with
  | none =>
    rwa [Lane.turn_of_none hnext]
  | some p =>
    obtain ⟨job, loop⟩ := p
    obtain ⟨-, -, hready⟩ := Loop.waiting_next? hnext
    rcases h.turn_cases hnext registries with ⟨k, rfl, hturn⟩ |
      ⟨job, join, events, verdict, registry, rfl, hwork, hover, hrecorded, hyields, hending, hturn⟩
    · rw [hturn]
      obtain ⟨join, events, verdict, registry, hwork, hover, hrecorded, hyields, hending⟩ :=
        h.finished
      have hjoint : loop.select FileJob.join? = l.joint := World.select_next? hnext rfl
      refine ⟨(Cell.stage_settleWaiter _ _ _).trans h.stage, h.dependencies, fun j x hx hnone => ?_,
        join, events, verdict, registry, hwork, ?_, hrecorded, hyields, hending⟩
      · have hx' : (l.record.cell.settleWaiter k ending).1.waiters[j]? = some x := hx
        rw [Cell.getElem?_settleWaiter, Option.map_eq_some_iff] at hx'
        obtain ⟨y, hy, rfl⟩ := hx'
        split at hnone
        · cases hnone
        · rename_i hother
          have hmem := h.tells j y hy hnone
          rw [hready] at hmem
          rcases List.mem_cons.mp hmem with hjk | hmem
          · cases hjk
            exact absurd ⟨rfl, hnone⟩ hother
          · exact hmem
      · rw [joint]
        exact hjoint.symm ▸ hover
    · rw [hturn]
      obtain ⟨hevents, hloop, hjoin⟩ := join.perform_joint loop job
      obtain ⟨hafter, hverdict⟩ := hover.perform (joint_next? hnext)
      rw [← hjoin] at hverdict
      rw [← hevents, ← hloop, ← hjoin] at hafter
      refine ⟨h.stage, h.dependencies, fun k x hk hx => ?_, _, _, verdict, registry, rfl, hafter,
        hrecorded.carried hafter.along, ?_, hending⟩
      · have hmem := h.tells k x hk hx
        rw [hready] at hmem
        rcases List.mem_cons.mp hmem with hjk | hmem
        · cases hjk
        · refine FileJob.mem_tell.mpr ?_
          have htold : (l.carried id loop ⟨resolver, occurrences, join⟩ job).loop.select
              FileJob.tell? = _ := join.told_perform loop job
          rw [htold]
          exact FileJob.mem_tell.mp hmem
      · refine hyields.imp (fun hv => hverdict.trans hv) fun hnil => ⟨?_, hnil.2⟩
        have hlength := hafter.along.length
        rw [← hover.along.length, hnil.1] at hlength
        exact List.length_eq_zero_iff.mp hlength

theorem Idle.turn (h : l.Idle id) (registries : Nat → Registry) : l.turn id registries = l := by
  simp [Lane.turn, Loop.next?, h.ready]

/-! ## Touches -/

section Touches

variable {envs : Nat → Environment} {a : Action} {l' : Lane}

/-- The launch of the specifiers is all that is due to a file that starts. -/
theorem Idle.joint_start (h : l.Idle id) (found : Extraction) :
    (l.start env options resolver id found).joint =
      { ready := [.launch], opened := l.loop.opened } := by
  simp [joint, Lane.start, Loop.select, Loop.post, h.ready, h.waiting]

/-- Nothing is recorded of a file that starts. -/
theorem Idle.recorded_start (h : l.Idle id) (found : Extraction) :
    (l.start env options resolver id found).Recorded id fun _ => [] := by
  intro i
  simp only [Lane.start, List.filter_append, List.filter_nil, List.append_eq_nil_iff]
  refine ⟨List.filter_eq_nil_iff.mpr fun e he => ?_, by simp [Event.isBy]⟩
  obtain ⟨text, rfl⟩ := h.log e he
  simp [Event.isBy]

/-- What starts is under way. -/
theorem Idle.start (h : l.Idle id) (found : Extraction) :
    Underway env options id resolver found.occurrences (l.start env options resolver id found) := by
  refine ⟨rfl, h.dependencies, ?_, _, fun _ => [], rfl, ?_, h.recorded_start found⟩
  · simp [told, Lane.start, Loop.select, Loop.post, h.ready, h.waiting, FileJob.tell?]
  · rw [h.joint_start]
    exact Join.running_ofScripts _ _

/-- A touch leaves a lane idle, or starts it. -/
theorem Touch.idle (h : Touch envs options id a l l') (hl : l.Idle id) :
    l'.Idle id ∨ ∃ k found notices, (envs k).extract l.record.text = .ok (found, notices) ∧
      (a = .resolve k id.name ∨ a = .tick) ∧ l' = l.start (envs k) options k id found := by
  cases h with
  | read =>
    refine .inl ⟨hl.stage, hl.work, hl.dependencies, hl.waiters, hl.ready, hl.waiting,
      fun e he => ?_⟩
    rcases List.mem_append.mp he with he | he
    · exact hl.log e he
    · exact ⟨_, List.mem_singleton.mp he⟩
  | start _ he h => exact .inr ⟨_, _, _, he, h, rfl⟩
  | join _ hs => exact absurd hl.stage hs
  | @giveUp waiter _ =>
    have hnone : (l.record.cell.giveUp waiter).1 = l.record.cell := by
      simp [Cell.giveUp, Cell.settleWaiter, hl.waiters]
    rw [setCell, hnone]
    exact .inl hl
  | write =>
    exact .inl ⟨hl.stage, hl.work, hl.dependencies, hl.waiters, hl.ready, hl.waiting, hl.log⟩
  | release =>
    refine .inl ⟨hl.stage, hl.work, hl.dependencies, hl.waiters, ?_, ?_, hl.log⟩
    · simp [Loop.release, hl.ready, hl.waiting]
    · simp [Loop.release, hl.waiting]

/-- Waiters come and give up without any consequence for the resolution. -/
theorem Underway.setCell (h : Underway env options id resolver occurrences l)
    {cell : Cell WalkRef Fault Dependencies} (hs : cell.stage = l.record.cell.stage) :
    Underway env options id resolver occurrences (l.setCell cell) :=
  ⟨hs.trans h.stage, h.dependencies, h.tells, h.running⟩

theorem joint_release (l : Lane) (gate : Gate) :
    ({ l with loop := l.loop.release gate } : Lane).joint = l.joint.release gate :=
  Loop.select_release _ _ _

/-- **A touch leaves the specifiers under way**, with as much to do. -/
theorem Touch.underway (h : Touch envs options id a l l')
    (hl : Underway env options id resolver occurrences l) :
    Underway env options id resolver occurrences l' ∧ l'.effort = l.effort := by
  cases h with
  | read hs => rw [hl.stage] at hs; cases hs
  | start hs => rw [hl.stage] at hs; cases hs
  | join => exact ⟨hl.setCell rfl, rfl⟩
  | giveUp => exact ⟨hl.setCell (Cell.stage_settleWaiter _ _ _), rfl⟩
  | write => exact ⟨⟨hl.stage, hl.dependencies, hl.tells, hl.running⟩, rfl⟩
  | release =>
    rename_i gate _
    obtain ⟨join, events, hwork, hrunning, hrecorded⟩ := hl.running
    refine ⟨⟨hl.stage, hl.dependencies, ?_, join, events, hwork, ?_, hrecorded⟩, ?_⟩
    · have htold : ({ l with loop := l.loop.release gate } : Lane).told = l.told.release gate :=
        Loop.select_release _ _ _
      rw [htold]
      simp [Loop.release, hl.tells.1, hl.tells.2]
    · rw [joint_release]
      exact hrunning.release gate
    · simp only [effort, hwork, joint_release]
      exact Join.effort_congr (Loop.load_release _ _ _) (Loop.load_release _ _ _)

/-- **A touch leaves a closed lane closed**, with the same outcome. -/
theorem Touch.closed {ending : Ending Fault Dependencies} (h : Touch envs options id a l l')
    (hl : Closed env options id resolver occurrences ending l) :
    Closed env options id resolver occurrences ending l' := by
  cases h with
  | read hs => rw [hl.stage] at hs; cases hs
  | start hs => rw [hl.stage] at hs; cases hs
  | join listener =>
    refine ⟨hl.stage, hl.dependencies, fun k x hk hx => ?_, hl.finished⟩
    have hended : l.record.cell.ending? = some ending := by simp [Cell.ending?, hl.stage]
    have hk' : (l.record.cell.waiters ++ [{ listener, outcome := some ending }])[k]? = some x := by
      rw [← hended]
      exact hk
    rcases Nat.lt_or_ge k l.record.cell.waiters.length with hlt | hge
    · rw [List.getElem?_append_left hlt] at hk'
      exact hl.tells k x hk' hx
    · rw [List.getElem?_append_right hge] at hk'
      have := List.mem_of_getElem? hk'
      rw [List.mem_singleton.mp this] at hx
      cases hx
  | @giveUp waiter _ =>
    refine ⟨(Cell.stage_settleWaiter _ _ _).trans hl.stage, hl.dependencies,
      fun k x hk hx => ?_, hl.finished⟩
    have hk' : (l.record.cell.settleWaiter waiter .cancelled).1.waiters[k]? = some x := hk
    rw [Cell.getElem?_settleWaiter, Option.map_eq_some_iff] at hk'
    obtain ⟨y, hy, rfl⟩ := hk'
    split at hx
    · cases hx
    · exact hl.tells k y hy hx
  | write => exact ⟨hl.stage, hl.dependencies, hl.tells, hl.finished⟩
  | release =>
    rename_i gate _
    obtain ⟨join, events, verdict, registry, hwork, hover, hrecorded, hyields, hending⟩ :=
      hl.finished
    refine ⟨hl.stage, hl.dependencies, fun k x hk hx => List.mem_append_left _ (hl.tells k x hk hx),
      join, events, verdict, registry, hwork, ?_, hrecorded, hyields, hending⟩
    rw [joint_release]
    exact hover.release gate

end Touches

end Lane

end DepGraph
