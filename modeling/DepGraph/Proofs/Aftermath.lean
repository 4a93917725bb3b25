import DepGraph.Proofs.Failures
import DepGraph.Proofs.Passing

/-!
# What a failed file leaves behind

When a specifier fails, the others stand at different calls: some wait for an answer, some have it
and are about to go on. All of them are cancelled where they stand, so that none makes its next
call.

* `Lane.Attended` — the specifiers of a file have come past open gates alone, and once the
  resolution has ended none of them goes on: `World.heeded_run` says that this is so in every run.
* `Lane.Attended.calls_turn` — what is still to be done for a file that has ended makes no call.
* `World.failed_leaves_nothing` — **once a file has failed** no call is made for it any more, and
  once nothing is due no call is in flight.
-/

set_option autoImplicit false

namespace DepGraph

/-- The event is a call on behalf of a file. -/
def Event.isCallOf (id : FileId) : Event → Bool
  | .called caller _ => caller.file = id
  | _ => false

theorem Event.isOf_of_isCallOf {id : FileId} {e : Event} (h : e.isCallOf id = true) :
    e.isOf id = true := by
  cases e <;> simp_all [isCallOf, isOf]

/-- The calls of a file are among its events. -/
theorem Event.filter_isCallOf (id : FileId) (events : List Event) :
    (events.filter (Event.isOf id)).filter (Event.isCallOf id) =
      events.filter (Event.isCallOf id) := by
  rw [List.filter_filter]
  refine List.filter_congr fun e _ => ?_
  by_cases h : e.isCallOf id = true
  · simp [h, isOf_of_isCallOf h]
  · simp [h]

namespace Lane

variable {envs : Nat → Environment} {env : Environment} {options : Options} {id : FileId}
  {resolver : Nat} {occurrences : List Occurrence} {l l' : Lane} {a : Action}
  {ending : Ending Fault Dependencies}

/-! ## How far the specifiers have come -/

/-- The specifiers have come past open gates alone; once the resolution has ended none goes on. -/
def Attended (env : Environment) (options : Options) (id : FileId) (resolver : Nat)
    (occurrences : List Occurrence) (l : Lane) : Prop :=
  ∃ join events, l.record.work = some ⟨resolver, occurrences, join⟩ ∧
    Join.Passing (World.scriptsOf env options id occurrences) events l.joint join ∧
    l.Recorded id events ∧ ∀ ending, l.record.cell.stage = .ended ending → join.Resting

theorem Idle.attended (h : l.Idle id) (found : Extraction) :
    Attended env options id resolver found.occurrences
      (l.start env options resolver id found) := by
  refine ⟨_, _, rfl, Join.passing_ofScripts _ _, h.recorded_start found, fun ending hs => ?_⟩
  cases hs

/-- The jobs of the join lead past open gates alone, and start nobody. -/
theorem Attended.carried {join : Join Event Fault (Option String)}
    (h : Attended env options id resolver occurrences l)
    (hwork : l.record.work = some ⟨resolver, occurrences, join⟩) (ha : Join.Accounts l.joint join)
    {job : JoinJob} {loop : Loop FileJob} (hnext : l.loop.next? = some (.join job, loop)) :
    Attended env options id resolver occurrences
      (l.carried id loop ⟨resolver, occurrences, join⟩ job) := by
  obtain ⟨join', events, hwork', hpassing, hrecorded, hresting⟩ := h
  obtain rfl : join = join' := by simpa using hwork.symm.trans hwork'
  obtain ⟨hevents, hloop, hjoin⟩ := join.perform_joint loop job
  have hafter := hpassing.perform ha (joint_next? hnext)
  rw [← hevents, ← hloop, ← hjoin] at hafter
  refine ⟨_, _, rfl, hafter, hrecorded.carried hafter.along, fun ending hs => ?_⟩
  change (join.perform FileJob.join loop job).2.2.Resting
  rw [hjoin]
  exact (hresting ending hs).perform _ job

/-- Who tells the waiters does nothing to the specifiers. -/
theorem Attended.told {cell : Cell WalkRef Fault Dependencies} {loop : Loop FileJob}
    (h : Attended env options id resolver occurrences l)
    (hloop : loop.select FileJob.join? = l.joint) (hs : cell.stage = l.record.cell.stage) :
    Attended env options id resolver occurrences { l.setCell cell with loop } := by
  obtain ⟨join, events, hwork, hpassing, hrecorded, hresting⟩ := h
  refine ⟨join, events, hwork, ?_, hrecorded, fun ending he => hresting ending (hs.symm.trans he)⟩
  rw [joint, hloop]
  exact hpassing

/-- At the end whoever has not ended is cancelled where it stands. -/
theorem Attended.closing {join : Join Event Fault (Option String)}
    (h : Attended env options id resolver occurrences l)
    (hwork : l.record.work = some ⟨resolver, occurrences, join⟩) {loop : Loop FileJob}
    (hopened : loop.opened = l.loop.opened) :
    (join.Resting → Attended env options id resolver occurrences
      (l.closing loop ⟨resolver, occurrences, join⟩ ending)) ∧
    Attended env options id resolver occurrences
      (l.closing loop ⟨resolver, occurrences, join.stop⟩ ending) := by
  obtain ⟨join', events, hwork', hpassing, hrecorded, -⟩ := h
  obtain rfl : join = join' := by simpa using hwork.symm.trans hwork'
  have hopen : (loop.select FileJob.join?).isOpen = l.joint.isOpen := by
    funext gate
    exact congrArg (·.contains gate) hopened
  refine ⟨fun hrest => ⟨join, events, rfl, ?_, hrecorded, fun _ _ => hrest⟩,
    ⟨join.stop, events, rfl, ?_, hrecorded, fun _ _ => Join.resting_stop join⟩⟩
  · rw [joint_closing]
    exact hpassing.resting hrest hopen
  · rw [joint_closing]
    exact hpassing.stop hopen

/-- **A turn leads the specifiers past open gates alone.** -/
theorem Attended.turn (h : Attended (envs resolver) options id resolver occurrences l)
    (hl : l.Started envs options id resolver occurrences) (registries : Nat → Registry) :
    Attended (envs resolver) options id resolver occurrences (l.turn id registries) := by
  cases hnext : l.loop.next? with
  | none =>
    rwa [Lane.turn_of_none hnext]
  | some p =>
    obtain ⟨job, loop⟩ := p
    rcases hl with hl | ⟨ending, hl⟩
    · rcases hl.turn_cases hnext registries with
        ⟨job, join, events, rfl, hwork, hrunning, -, -, -, hturn⟩ |
          ⟨ending, -, -, -, join, loop', hwork, hopened, ⟨hrest, hturn⟩ | hturn⟩
      · rw [hturn]
        exact h.carried hwork hrunning.accounts hnext
      · rw [hturn]
        exact (h.closing hwork hopened).1 hrest
      · rw [hturn]
        exact (h.closing hwork hopened).2
    · rcases hl.turn_cases hnext registries with
        ⟨k, rfl, hturn⟩ | ⟨job, join, events, verdict, registry, rfl, hwork, hover, -, -, -, hturn⟩
      · rw [hturn]
        exact h.told (World.select_next? hnext rfl) (Cell.stage_settleWaiter _ _ _)
      · rw [hturn]
        exact h.carried hwork hover.accounts hnext

/-- A touch leaves the specifiers where they stand. -/
theorem Attended.touch (h : Attended (envs resolver) options id resolver occurrences l)
    (hs : l.record.cell.stage ≠ .unstarted) (ht : Touch envs options id a l l') :
    Attended (envs resolver) options id resolver occurrences l' := by
  cases ht with
  | read hs' => exact absurd hs' hs
  | start hs' => exact absurd hs' hs
  | join => exact h.told rfl rfl
  | giveUp => exact h.told rfl (Cell.stage_settleWaiter _ _ _)
  | write => exact h
  | release =>
    rename_i gate _
    obtain ⟨join, events, hwork, hpassing, hrecorded, hresting⟩ := h
    refine ⟨join, events, hwork, ?_, hrecorded, hresting⟩
    rw [joint_release]
    exact hpassing.release gate

/-! ## Once the resolution has ended -/

/-- A member that was cancelled makes no call at its last turn. -/
theorem Attended.calls_carried {join : Join Event Fault (Option String)}
    (h : Attended env options id resolver occurrences l)
    (hwork : l.record.work = some ⟨resolver, occurrences, join⟩)
    (hs : l.record.cell.stage = .ended ending) (loop : Loop FileJob) (job : JoinJob) :
    (join.perform FileJob.join loop job).1.filter (Event.isCallOf id) = [] := by
  obtain ⟨join', events, hwork', hpassing, -, hresting⟩ := h
  obtain rfl : join = join' := by simpa using hwork.symm.trans hwork'
  cases job with
  | launch => rfl
  | wake => rfl
  | hear i => rfl
  | turn i =>
    cases hm : join.members[i]? with
    | none => simp [Join.perform, Join.turn, hm]
    | some m =>
      obtain ⟨s, hsome, hfollows⟩ := hpassing.along.member hm
      obtain ⟨m', hm', hpassed⟩ := hpassing.each i s hsome
      obtain rfl := Option.some.inj (hm.symm.trans hm')
      rw [World.getElem?_scriptsOf] at hsome
      obtain ⟨o, -, rfl⟩ := Option.map_eq_some_iff.mp hsome
      have hevents : (join.perform FileJob.join loop (.turn i)).1 =
          (Join.turnOf loop.isOpen m).1 := by
        simp [Join.perform, Join.turn, hm]
      rw [hevents]
      cases m with
      | active farewell rest => exact absurd hm (hresting ending hs i farewell rest)
      | ended e => rfl
      | stopped farewell =>
        refine List.filter_eq_nil_iff.mpr fun e he hcall => ?_
        cases e with
        | called caller call => exact Inquiry.called_notMem_farewell env id i hpassed caller call he
        | _ => cases hcall

/-- **What is still to be done for a file that has ended** makes no call. -/
theorem Attended.calls_turn (h : Attended env options id resolver occurrences l)
    (hl : Closed env options id resolver occurrences ending l) (registries : Nat → Registry) :
    (l.turn id registries).log.filter (Event.isCallOf id) = l.log.filter (Event.isCallOf id) := by
  cases hnext : l.loop.next? with
  | none =>
    rw [Lane.turn_of_none hnext]
  | some p =>
    obtain ⟨job, loop⟩ := p
    rcases hl.turn_cases hnext registries with
      ⟨k, rfl, hturn⟩ | ⟨job, join, events, verdict, registry, rfl, hwork, -, -, -, -, hturn⟩
    · rw [hturn]
      rfl
    · rw [hturn]
      simp only [Lane.carried, List.filter_append, Event.filter_isCallOf,
        h.calls_carried hwork hl.stage loop job, List.append_nil]

/-- Nobody makes a call from outside. -/
theorem Touch.calls (ht : Touch envs options id a l l') :
    l'.log.filter (Event.isCallOf id) = l.log.filter (Event.isCallOf id) := by
  cases ht with
  | read => simp [Event.isCallOf]
  | start => simp [Lane.start, Event.isCallOf]
  | join => rfl
  | giveUp => rfl
  | write => rfl
  | release => rfl

/-- Once nothing is due to the specifiers, all of them have ended. -/
theorem Attended.ended_of_idle {join : Join Event Fault (Option String)}
    (h : Attended env options id resolver occurrences l)
    (hwork : l.record.work = some ⟨resolver, occurrences, join⟩) (ha : Join.Accounts l.joint join)
    (hs : l.record.cell.stage = .ended ending) (hready : l.joint.ready = []) :
    ∀ m ∈ join.members, ∃ e, m = .ended e := by
  obtain ⟨join', events, hwork', -, -, hresting⟩ := h
  obtain rfl : join = join' := by simpa using hwork.symm.trans hwork'
  have hrest := hresting ending hs
  have hload : ∀ job, l.joint.load job = 0 := by
    intro job
    simp [Loop.load, hready, hrest.waiting_nil ha]
  intro m hmem
  obtain ⟨i, hm⟩ := List.mem_iff_getElem?.mp hmem
  have hseated := ha.seated i
  rw [hm] at hseated
  cases m with
  | ended e => exact ⟨e, rfl⟩
  | active farewell rest => exact absurd hm (hrest i farewell rest)
  | stopped farewell =>
    have hone := hseated.1
    rw [hload] at hone
    cases hone

/-- Every call of specifiers that have ended was answered or cancelled. -/
theorem Attended.answered_or_cancelled {join : Join Event Fault (Option String)}
    (h : Attended env options id resolver occurrences l)
    (hwork : l.record.work = some ⟨resolver, occurrences, join⟩)
    (hended : ∀ m ∈ join.members, ∃ e, m = .ended e) {i stage : Nat} {call : Call}
    (hcalled : .called ⟨id, i, stage⟩ call ∈ l.log) :
    .cancelled ⟨id, i, stage⟩ call ∈ l.log ∨
      ∀ gate ∈ env.gatesOf ⟨id, i, stage⟩ call, l.loop.isOpen gate = true := by
  obtain ⟨join', events, hwork', hpassing, hrecorded, -⟩ := h
  obtain rfl : join = join' := by simpa using hwork.symm.trans hwork'
  rw [hrecorded.called_iff] at hcalled
  rw [hrecorded.cancelled_iff]
  cases hsome : (World.scriptsOf env options id occurrences)[i]? with
  | none =>
    rw [hpassing.beyond i hsome] at hcalled
    cases hcalled
  | some s =>
    obtain ⟨m, hm, hpassed⟩ := hpassing.each i s hsome
    obtain ⟨e, rfl⟩ := hended m (List.mem_of_getElem? hm)
    rw [World.getElem?_scriptsOf] at hsome
    obtain ⟨o, -, rfl⟩ := Option.map_eq_some_iff.mp hsome
    exact Inquiry.answered_or_cancelled env id i hpassed hcalled

/-! ## Runs -/

/-- A lane is idle, or its resolution was started and its specifiers have come past open gates
alone. -/
def Heeded (envs : Nat → Environment) (options : Options) (id : FileId) (l : Lane) : Prop :=
  l.Idle id ∨ ∃ resolver occurrences, l.Started envs options id resolver occurrences ∧
    Attended (envs resolver) options id resolver occurrences l

theorem Heeded.turn (h : l.Heeded envs options id) (registries : Nat → Registry) :
    (l.turn id registries).Heeded envs options id := by
  rcases h with h | ⟨resolver, occurrences, hl, h⟩
  · rw [h.turn]
    exact .inl h
  · exact .inr ⟨resolver, occurrences, hl.turn registries, h.turn hl registries⟩

theorem Heeded.touch (h : l.Heeded envs options id) (ht : Touch envs options id a l l') :
    l'.Heeded envs options id := by
  rcases h with h | ⟨resolver, occurrences, hl, h⟩
  · rcases ht.idle h with h' | ⟨k, found, notices, -, -, rfl⟩
    · exact .inl h'
    · exact .inr ⟨k, found.occurrences, .inl (h.start found), h.attended found⟩
  · exact .inr ⟨resolver, occurrences, hl.touch ht, h.touch hl.stage_ne ht⟩

/-- The resolution has ended, and the calls that were made for the file are these. -/
def Silenced (env : Environment) (options : Options) (id : FileId) (resolver : Nat)
    (occurrences : List Occurrence) (ending : Ending Fault Dependencies) (calls : List Event)
    (l : Lane) : Prop :=
  Closed env options id resolver occurrences ending l ∧
    Attended env options id resolver occurrences l ∧ l.log.filter (Event.isCallOf id) = calls

variable {calls : List Event}

/-- Where a resolution has ended, no job makes a call for the file. -/
theorem Silenced.turn
    (h : Silenced (envs resolver) options id resolver occurrences ending calls l)
    (registries : Nat → Registry) :
    Silenced (envs resolver) options id resolver occurrences ending calls
      (l.turn id registries) := by
  obtain ⟨hclosed, hattended, hcalls⟩ := h
  have hstarted : l.Started envs options id resolver occurrences := .inr ⟨ending, hclosed⟩
  exact ⟨hclosed.turn registries, hattended.turn hstarted registries,
    (hattended.calls_turn hclosed registries).trans hcalls⟩

theorem Silenced.touch
    (h : Silenced (envs resolver) options id resolver occurrences ending calls l)
    (ht : Touch envs options id a l l') :
    Silenced (envs resolver) options id resolver occurrences ending calls l' := by
  obtain ⟨hclosed, hattended, hcalls⟩ := h
  have hstarted : l.Started envs options id resolver occurrences := .inr ⟨ending, hclosed⟩
  exact ⟨ht.closed hclosed, hattended.touch hstarted.stage_ne ht, ht.calls.trans hcalls⟩

end Lane

namespace World

variable {env : Nat → Environment}

/-- In every run the specifiers of every file have come past open gates alone. -/
theorem heeded_run (options : Options) (libName : String) (registries : Nat → Registry)
    (actions : List Action) {id : FileId} {l : Lane}
    (hl : ((initial options libName registries).run env actions).lane? id = some l) :
    l.Heeded env options id :=
  lane_run (fun text opened => .inl (Lane.idle_fresh id text opened))
    (fun _ registries h => h.turn registries) (fun _ _ _ ht h => h.touch ht) libName registries
    actions hl

/-- **A resolution that has ended makes no call any more**, whatever happens from then on. -/
theorem silenced_run (options : Options) (libName : String) (registries : Nat → Registry)
    (actions later : List Action) {id : FileId} {l : Lane} {ending : Ending Fault Dependencies}
    (hl : ((initial options libName registries).run env actions).lane? id = some l)
    (hs : l.record.cell.stage = .ended ending) :
    ∃ l' resolver occurrences,
      ((initial options libName registries).run env (actions ++ later)).lane? id = some l' ∧
      l'.Silenced (env resolver) options id resolver occurrences ending
        (l.log.filter (Event.isCallOf id)) := by
  have hw := tidy_run env (tidy_initial options libName registries) actions
  obtain ⟨l', hl'⟩ := lane?_run_isSome hw hl later
  rcases heeded_run options libName registries actions hl with
    h | ⟨resolver, occurrences, hstarted, hattended⟩
  · rw [h.stage] at hs
    cases hs
  have hclosed : Lane.Closed (env resolver) options id resolver occurrences ending l := by
    rcases hstarted with h | ⟨ending', h⟩
    · rw [h.stage] at hs
      cases hs
    · obtain rfl : ending' = ending := by simpa [h.stage] using hs
      exact h
  refine ⟨l', resolver, occurrences, by rwa [run_append], ?_⟩
  exact lane_run_of (fun _ registries h => h.turn registries) (fun _ _ _ ht h => h.touch ht) hw
    (options_run (tidy_initial options libName registries) _) hl ⟨hclosed, hattended, rfl⟩ later hl'

/-- **A failed file leaves nothing running.** Once the resolution of a file has failed, it stays
failed, no call is ever made for the file again, and none of its specifiers waits at a gate. Once
none of their jobs is due, as is so whenever the loop has settled, all of them have ended, and every
call that was made for the file was cancelled or has its answer: all gates that the answer waits
for are open. -/
theorem failed_leaves_nothing (env : Nat → Environment) (options : Options) (libName : String)
    (registries : Nat → Registry) (actions later : List Action) {id : FileId} {r : Record}
    (hr : ((initial options libName registries).run env actions).store.record? id = some r)
    (hfailed : r.cell.state = .failed) :
    let w := (initial options libName registries).run env (actions ++ later)
    ∃ r' work, w.store.record? id = some r' ∧ r'.cell.state = .failed ∧ r'.work = some work ∧
      w.log.filter (Event.isCallOf id) =
        ((initial options libName registries).run env actions).log.filter (Event.isCallOf id) ∧
      (∀ gate job, (gate, .file id (.join job)) ∉ w.loop.waiting) ∧
      ((∀ job, .file id (.join job) ∉ w.loop.ready) →
        (∀ m ∈ work.join.members, ∃ e, m = .ended e) ∧
        ∀ i stage call, .called ⟨id, i, stage⟩ call ∈ w.log →
          .cancelled ⟨id, i, stage⟩ call ∈ w.log ∨
            ∀ gate ∈ (env work.resolver).gatesOf ⟨id, i, stage⟩ call,
              w.loop.isOpen gate = true) := by
  intro w
  obtain ⟨ending, hs⟩ := Cell.ended_of_failed hfailed
  obtain ⟨l', resolver, occurrences, hl', hclosed, hattended, hcalls⟩ :=
    silenced_run options libName registries actions later (lane?_of_record? hr) hs
  obtain ⟨join, events, verdict, registry, hwork, hover, -⟩ := hclosed.finished
  obtain ⟨hr', hloop, hlog⟩ := lane?_eq_some.mp hl'
  have hrest : join.Resting := by
    obtain ⟨join', -, hwork', -, -, hrest⟩ := hattended
    obtain rfl : join = join' := by simpa using hwork.symm.trans hwork'
    exact hrest ending hclosed.stage
  have hjoint : l'.joint = (w.loop.select (Job.of? id)).select FileJob.join? := by
    rw [Lane.joint, hloop]
  refine ⟨l'.record, _, hr', ?_, hwork, ?_, fun gate job hmem => ?_, fun hdue => ?_⟩
  · exact (Cell.state_eq_failed hclosed.stage).mpr ((Cell.state_eq_failed hs).mp hfailed)
  · rw [hlog, Event.filter_isCallOf, Event.filter_isCallOf] at hcalls
    exact hcalls
  · -- What waits in the world waits in the join's part of it.
    rw [← Loop.mem_waiting_select (Job.of?_unwraps id),
      ← Loop.mem_waiting_select FileJob.join?_unwraps, ← hjoint, hrest.waiting_nil hover.accounts]
      at hmem
    cases hmem
  · have hready : l'.joint.ready = [] := by
      refine List.eq_nil_iff_forall_not_mem.mpr fun job hmem => hdue job ?_
      rwa [hjoint, Loop.mem_select FileJob.join?_unwraps, Loop.mem_select (Job.of?_unwraps id)]
        at hmem
    have hended := hattended.ended_of_idle hwork hover.accounts hclosed.stage hready
    refine ⟨hended, fun i stage call hcalled => ?_⟩
    rw [← Event.called_mem_filter] at hcalled
    rw [← Event.cancelled_mem_filter]
    have hanswered := hattended.answered_or_cancelled hwork hended (hlog ▸ hcalled)
    rw [hlog, hloop] at hanswered
    exact hanswered

/-- A file has two references and an import. The first reference fails once a gate is open; the
other, and the descriptor of the package that is imported, are waited for at another gate. -/
def refusing : Nat → Environment := fun _ =>
  { address := fun caller _ _ =>
      match caller.occurrence with
      | 0 => { gates := ["g"], outcome := .raised ⟨"OSError", "e"⟩ }
      | 1 => { gates := ["h"], outcome := .returned "c.d.ts" }
      | _ => { outcome := .returned "d.js" }
    descriptor := fun _ _ => { gates := ["h"], outcome := .returned ⟨[]⟩ }
    source := fun _ _ => { outcome := .returned "" }
    extract := fun _ => .ok ({ fileReferences := ["b", "c"], imports := ["d"] }, []) }

/-- The file is added and asked for, and the resolution ends with the failure of the reference. -/
def refusal : List Action :=
  [.add "a" "", .resolve 0 "a"] ++ List.replicate 4 .tick ++ [.release "g"] ++
    List.replicate 3 .tick

/-- At the failure the two others wait for the answers to their first and their second call. Neither
makes another call when the gate is opened after all, and no call is left without an end. -/
theorem failed_leaves_nothing_refusal :
    let w := (initial {} defaultLibName fun _ => {}).run refusing
      (refusal ++ .release "h" :: List.replicate 5 .tick)
    w.log.filter (Event.isCallOf ⟨"a", 0⟩) =
      ((initial {} defaultLibName fun _ => {}).run refusing refusal).log.filter
        (Event.isCallOf ⟨"a", 0⟩) ∧
    ∀ i stage call, .called ⟨⟨"a", 0⟩, i, stage⟩ call ∈ w.log →
      .cancelled ⟨⟨"a", 0⟩, i, stage⟩ call ∈ w.log ∨
        ∀ gate ∈ (refusing 0).gatesOf ⟨⟨"a", 0⟩, i, stage⟩ call, w.loop.isOpen gate = true := by
  intro w
  obtain ⟨r', work, -, -, -, hcalls, -, hsettled⟩ :=
    failed_leaves_nothing refusing {} defaultLibName (fun _ => {}) refusal
      (.release "h" :: List.replicate 5 .tick)
      (show ((initial {} defaultLibName fun _ => {}).run refusing refusal).store.record?
        ⟨"a", 0⟩ = some _ from rfl) rfl
  have hready : w.loop.ready = [] := rfl
  exact ⟨hcalls, (hsettled fun job hmem => by rw [hready] at hmem; cases hmem).2⟩

end World

end DepGraph
