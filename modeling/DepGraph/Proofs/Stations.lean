import DepGraph.Proofs.Failures
import DepGraph.Proofs.Passing

/-!
# At which gates the specifiers of a file wait

A job that waits at a gate waits for the answer to a call, which was made and was not cancelled.

* `Inquiry.call_of_passes` — an inquiry that has come to a gate has made a call whose answer waits
  for this gate.
* `Join.Stationed` — whoever waits at a gate has come to this gate; `Join.Stationed.perform` and
  `Join.Stationed.release` say that this stays so.
* `Lane.Posted` — so it is with the specifiers of a file while its resolution is under way:
  `World.attentive_run` says that this is so in every run.
* `Lane.Posted.held` — **with nothing due, a resolution that is under way is held up by a call**.
-/

set_option autoImplicit false

namespace DepGraph

variable {ε φ α : Type}

/-! ## Inquiries -/

/-- Whoever has come to a gate waits at one of the first, or has passed them all. -/
theorem Script.hold_of_passes_holdAll {isOpen : Gate → Bool} {gates : List Gate} {gate : Gate}
    {farewell farewell' : List ε} {s later : Script ε φ α} {events : List ε}
    (h : (holdAll farewell gates s).Passes isOpen events (.hold gate farewell' later)) :
    events = [] ∧ gate ∈ gates ∨ s.Passes isOpen events (.hold gate farewell' later) := by
  induction gates with
  | nil => exact .inr h
  | cons first gates ih =>
    cases h with
    | refl => exact .inl ⟨rfl, List.mem_cons_self⟩
    | hold _ _ _ h => exact (ih h).imp_left fun ⟨hnil, hmem⟩ => ⟨hnil, List.mem_cons_of_mem _ hmem⟩

namespace Inquiry

variable (env : Environment) (id : FileId) (occurrence : Nat) {isOpen : Gate → Bool}
  {events farewell : List Event} {later : Script Event Fault α} {gate : Gate}

/-- Whoever has come to a gate in the work of a call waits for its answer, or has gone on with
it. -/
theorem hold_of_passes_callScript {γ : Type} {caller : Caller} {call : Call} {reply : Reply γ}
    {wrap : Cause → Fault} {next : γ → Script Event Fault α}
    (h : (callScript caller call reply wrap next).Passes isOpen events
      (.hold gate farewell later)) :
    ∃ rest, events = .called caller call :: rest ∧
      (gate ∈ reply.gates ∨ ∃ a, (next a).Passes isOpen rest (.hold gate farewell later)) := by
  cases h with
  | emit _ h =>
    refine ⟨_, rfl, ?_⟩
    rcases Script.hold_of_passes_holdAll h with ⟨-, hmem⟩ | h
    · exact .inl hmem
    · cases hr : reply.outcome with
      | returned a =>
        rw [hr] at h
        exact .inr ⟨a, h⟩
      | raised cause =>
        rw [hr] at h
        cases h
      | cancelled =>
        rw [hr] at h
        cases h

/-- **An inquiry that has come to a gate** has made a call whose answer waits for this gate. -/
theorem call_of_passes {stage : Nat} {q : Inquiry α}
    (h : (q.script env id occurrence stage).Passes isOpen events (.hold gate farewell later)) :
    ∃ stage' call, .called ⟨id, occurrence, stage'⟩ call ∈ events ∧
      gate ∈ env.gatesOf ⟨id, occurrence, stage'⟩ call := by
  induction q generalizing stage events with
  | answer a => cases h
  | fault f => cases h
  | address specifier next ih =>
    obtain ⟨rest, rfl, hmem | ⟨a, h⟩⟩ := hold_of_passes_callScript h
    · exact ⟨_, _, List.mem_cons_self, hmem⟩
    · obtain ⟨stage', call, hcalled, hmem⟩ := ih a h
      exact ⟨stage', call, List.mem_cons_of_mem _ hcalled, hmem⟩
  | descriptor a specifier next ih =>
    obtain ⟨rest, rfl, hmem | ⟨d, h⟩⟩ := hold_of_passes_callScript h
    · exact ⟨_, _, List.mem_cons_self, hmem⟩
    · obtain ⟨stage', call, hcalled, hmem⟩ := ih d h
      exact ⟨stage', call, List.mem_cons_of_mem _ hcalled, hmem⟩
  | note n next ih =>
    cases h with
    | emit _ h =>
      obtain ⟨stage', call, hcalled, hmem⟩ := ih h
      exact ⟨stage', call, List.mem_cons_of_mem _ hcalled, hmem⟩

/-- An inquiry that goes on has cancelled no call. -/
theorem cancelled_notMem_of_passes {stage : Nat} {q : Inquiry α} {rest : Script Event Fault α}
    (h : (q.script env id occurrence stage).Passes isOpen events rest) (caller : Caller)
    (call : Call) : .cancelled caller call ∉ events := by
  intro hmem
  have hall := cancelled_notMem_script env id occurrence stage q caller call
  rw [h.reaches.events_eq] at hall
  exact hall (List.mem_append_left _ hmem)

end Inquiry

/-! ## Joins -/

namespace Join

variable {scripts : List (Script ε φ α)} {events : Nat → List ε} {loop loop' : Loop JoinJob}
  {join : Join ε φ α} {job : JoinJob}

/-- Whoever waits at a gate has come to this gate, by way of open gates alone. -/
def Stationed (scripts : List (Script ε φ α)) (events : Nat → List ε) (loop : Loop JoinJob) :
    Prop :=
  ∀ gate i, (gate, .turn i) ∈ loop.waiting → ∃ s farewell rest, scripts[i]? = some s ∧
    s.Passes loop.isOpen (events i) (.hold gate farewell rest)

theorem stationed_of_waiting_nil (h : loop.waiting = []) : Stationed scripts events loop := by
  intro gate i hmem
  rw [h] at hmem
  cases hmem

/-- A job lets at most one job begin to wait: the turn of a member that comes to a closed gate. -/
theorem waiting_perform {gate : Gate} {k : Nat}
    (h : (gate, .turn k) ∈ (join.perform id loop job).2.1.waiting) :
    (gate, .turn k) ∈ loop.waiting ∨ job = .turn k ∧ ∃ m, join.members[k]? = some m ∧
      (turnOf loop.isOpen m).2.2 = .at gate := by
  cases job with
  | launch => exact .inl h
  | wake => exact .inl h
  | hear i =>
    simp only [perform] at h
    split at h
    · exact .inl h
    · exact .inl h
  | turn i =>
    cases hm : join.members[i]? with
    | none => exact .inl (by simpa [perform, turn, hm] using h)
    | some m =>
      simp only [perform, turn_eq loop.isOpen hm] at h
      split at h
      · rename_i gate' hgate
        rcases List.mem_append.mp h with h | h
        · exact .inl h
        · cases List.mem_singleton.mp h
          exact .inr ⟨rfl, m, hm, hgate⟩
      · exact .inl h
      · exact .inl h

theorem isOpen_perform (loop : Loop JoinJob) (join : Join ε φ α) (job : JoinJob) :
    (join.perform id loop job).2.1.isOpen = loop.isOpen := by
  funext gate
  exact congrArg (·.contains gate) (join.perform_extends id loop job).2

namespace Stationed

theorem release (h : Stationed scripts events loop) (gate : Gate) :
    Stationed scripts events (loop.release gate) := by
  intro other i hmem
  obtain ⟨s, farewell, rest, hs, hpasses⟩ := h other i (List.mem_filter.mp hmem).1
  refine ⟨s, farewell, rest, hs, hpasses.mono fun gate' hopen => ?_⟩
  rw [Loop.isOpen_release, hopen, Bool.true_or]

/-- **Jobs station members where they have come to.** -/
theorem perform (h : Stationed scripts events loop) (hp : Passing scripts events loop join)
    (ha : Accounts loop join) (hnext : loop.next? = some (job, loop')) :
    Stationed scripts (noted job (join.perform id loop' job).1 events)
      (join.perform id loop' job).2.1 := by
  obtain ⟨hwaiting, hopened, -⟩ := Loop.waiting_next? hnext
  have hsame : loop'.isOpen = loop.isOpen := by
    funext gate
    rw [Loop.isOpen, hopened, Loop.isOpen]
  have hturn : ∀ k, job = .turn k → ∀ gate, (gate, .turn k) ∉ loop.waiting := by
    rintro k rfl
    obtain ⟨-, -, hone, -⟩ := ha.turn_running (Loop.load_pos_of_next? hnext)
    exact Loop.notMem_waiting hone hnext
  intro gate k hmem
  rw [isOpen_perform, hsame]
  rcases waiting_perform hmem with hmem | ⟨rfl, m, hm, hgate⟩
  · -- Whoever waited before has not had its turn now.
    rw [hwaiting] at hmem
    have hjob : job ≠ .turn k := fun hjob => hturn k hjob gate hmem
    rw [noted, if_neg hjob]
    exact h gate k hmem
  · obtain ⟨s, hs, hfollows⟩ := hp.along.member hm
    obtain ⟨m', hm', hpassed⟩ := hp.each k s hs
    obtain rfl := Option.some.inj (hm.symm.trans hm')
    rw [noted, if_pos rfl]
    simp only [Join.perform, turn_eq loop'.isOpen hm]
    rw [hsame] at hgate ⊢
    cases m with
    | active farewell rest =>
      have hpiece := (hpassed.reached (hturn k rfl)).trans (rest.advance_passes loop.isOpen)
      cases hadvance : rest.advance loop.isOpen with
      | mk new pause =>
        rw [hadvance] at hpiece
        simp only [turnOf, hadvance] at hgate ⊢
        cases pause with
        | ended e => cases hgate
        | held gate' farewell' rest' =>
          cases hgate
          exact ⟨s, farewell', rest', hs, hpiece⟩
    | stopped farewell => cases hgate
    | ended e => cases hgate

end Stationed

end Join

/-! ## Lanes -/

namespace Lane

variable {envs : Nat → Environment} {env : Environment} {options : Options} {id : FileId}
  {resolver : Nat} {occurrences : List Occurrence} {l l' : Lane} {a : Action}
  {join : Join Event Fault (Option String)} {events : Nat → List Event}

/-- The specifiers are under way; they have come past open gates alone, and whoever waits at a gate
has come to this gate. -/
structure Posted (env : Environment) (options : Options) (id : FileId) (resolver : Nat)
    (occurrences : List Occurrence) (join : Join Event Fault (Option String))
    (events : Nat → List Event) (l : Lane) : Prop where
  work : l.record.work = some ⟨resolver, occurrences, join⟩
  running : Join.Running (World.scriptsOf env options id occurrences) events l.joint join
  passing : Join.Passing (World.scriptsOf env options id occurrences) events l.joint join
  stationed : Join.Stationed (World.scriptsOf env options id occurrences) events l.joint
  recorded : l.Recorded id events

/-- While its resolution is under way, the specifiers of a file are where they have come to. -/
def Attentive (envs : Nat → Environment) (options : Options) (id : FileId) (l : Lane) : Prop :=
  l.record.cell.stage = .inProgress → ∃ resolver occurrences join events,
    l.Posted (envs resolver) options id resolver occurrences join events

theorem Idle.posted (h : l.Idle id) (found : Extraction) :
    (l.start env options resolver id found).Posted env options id resolver found.occurrences
      (Join.ofScripts (World.scriptsOf env options id found.occurrences)) fun _ => [] := by
  have hjoint : (l.start env options resolver id found).joint = _ := h.joint_start found
  refine ⟨rfl, ?_, Join.passing_ofScripts _ _, ?_, h.recorded_start found⟩
  · rw [hjoint]
    exact Join.running_ofScripts _ _
  · rw [hjoint]
    exact Join.stationed_of_waiting_nil rfl

/-- Only the work, the jobs and the events of a file matter. -/
theorem Posted.congr (h : l.Posted env options id resolver occurrences join events)
    (hwork : l'.record.work = l.record.work) (hloop : l'.loop = l.loop) (hlog : l'.log = l.log) :
    l'.Posted env options id resolver occurrences join events := by
  have hjoint : l'.joint = l.joint := congrArg (Loop.select FileJob.join?) hloop
  refine ⟨hwork.trans h.work, ?_, ?_, ?_, fun i => ?_⟩
  · rw [hjoint]
    exact h.running
  · rw [hjoint]
    exact h.passing
  · rw [hjoint]
    exact h.stationed
  · rw [hlog]
    exact h.recorded i

/-- A job of the join leaves the specifiers where they have come to. -/
theorem Posted.carried (h : l.Posted env options id resolver occurrences join events)
    {job : JoinJob} {loop : Loop FileJob} (hnext : l.loop.next? = some (.join job, loop))
    (hwake : job ≠ .wake) (hlaunch : job = .launch → join.members ≠ []) :
    ∃ join' events', (l.carried id loop ⟨resolver, occurrences, join⟩ job).Posted env options id
      resolver occurrences join' events' := by
  obtain ⟨hevents, hloop, hjoin⟩ := join.perform_joint loop job
  have hjoint := joint_next? hnext
  have hrunning := h.running.perform hjoint hwake hlaunch
  have hpassing := h.passing.perform h.running.accounts hjoint
  have hstationed := h.stationed.perform h.passing h.running.accounts hjoint
  rw [← hevents, ← hloop] at hstationed
  rw [← hevents, ← hloop, ← hjoin] at hrunning hpassing
  exact ⟨_, _, rfl, hrunning, hpassing, hstationed, h.recorded.carried hpassing.along⟩

theorem Attentive.turn (h : l.Attentive envs options id) (hl : Lawful envs options id l)
    (registries : Nat → Registry) : (l.turn id registries).Attentive envs options id := by
  intro hs
  rcases hl with hl | ⟨resolver, occurrences, hl | ⟨ending, hl⟩⟩
  · rw [hl.turn] at hs ⊢
    exact h hs
  · obtain ⟨resolver', occurrences', join, events, hposted⟩ := h hl.stage
    cases hnext : l.loop.next? with
    | none =>
      rw [Lane.turn_of_none hnext]
      exact ⟨_, _, _, _, hposted⟩
    | some p =>
      obtain ⟨job, loop⟩ := p
      rcases hl.turn_cases hnext registries with
        ⟨job, join', events', rfl, hwork, -, -, hwake, hlaunch, hturn⟩ | ⟨ending, hclosed, -⟩
      · obtain ⟨rfl, rfl, rfl⟩ :
            resolver' = resolver ∧ occurrences' = occurrences ∧ join = join' := by
          simpa using hposted.work.symm.trans hwork
        rw [hturn]
        obtain ⟨join', events', hafter⟩ := hposted.carried hnext hwake hlaunch
        exact ⟨_, _, _, _, hafter⟩
      · rw [hclosed.stage] at hs
        cases hs
  · rw [(hl.turn registries).stage] at hs
    cases hs

theorem Attentive.touch (h : l.Attentive envs options id) (hl : Lawful envs options id l)
    (ht : Touch envs options id a l l') : l'.Attentive envs options id := by
  intro hs
  cases ht with
  | read hs' =>
    have hunder : l.record.cell.stage = .inProgress := hs
    rw [hs'] at hunder
    cases hunder
  | start hs' =>
    rename_i k found notices he hby
    exact ⟨_, _, _, _, (hl.idle_of_unstarted hs').posted found⟩
  | join =>
    obtain ⟨resolver, occurrences, join, events, hposted⟩ := h hs
    exact ⟨_, _, _, _, hposted.congr rfl rfl rfl⟩
  | giveUp =>
    have hunder : l.record.cell.stage = .inProgress := (Cell.stage_settleWaiter _ _ _).symm.trans hs
    obtain ⟨resolver, occurrences, join, events, hposted⟩ := h hunder
    exact ⟨_, _, _, _, hposted.congr rfl rfl rfl⟩
  | write =>
    obtain ⟨resolver, occurrences, join, events, hposted⟩ := h hs
    exact ⟨_, _, _, _, hposted.congr rfl rfl rfl⟩
  | release =>
    rename_i gate _
    obtain ⟨resolver, occurrences, join, events, hposted⟩ := h hs
    refine ⟨_, _, _, _, hposted.work, ?_, ?_, ?_, hposted.recorded⟩
    · rw [joint_release]
      exact hposted.running.release gate
    · rw [joint_release]
      exact hposted.passing.release gate
    · rw [joint_release]
      exact hposted.stationed.release gate

/-- **With nothing due, a specifier waits at a closed gate for the answer to a call** that it has
made and that was not cancelled. -/
theorem Posted.held (h : l.Posted env options id resolver occurrences join events)
    (hready : l.loop.ready = []) :
    ∃ i stage call gate, (gate, .join (.turn i)) ∈ l.loop.waiting ∧ l.loop.isOpen gate = false ∧
      .called ⟨id, i, stage⟩ call ∈ l.log ∧ .cancelled ⟨id, i, stage⟩ call ∉ l.log ∧
      gate ∈ env.gatesOf ⟨id, i, stage⟩ call := by
  have hidle : l.joint.ready = [] := by simp [joint, Loop.select, hready]
  obtain ⟨⟨gate, job⟩, hwaits⟩ := h.running.accounts.waits h.running.sound h.running.wake
    (fun hnil => (h.running.launch hnil).1) hidle
  obtain ⟨hclosed, i, -, -, rfl, -⟩ := h.running.accounts.waiting gate job hwaits
  obtain ⟨s, farewell, rest, hs, hpasses⟩ := h.stationed gate i hwaits
  rw [World.getElem?_scriptsOf] at hs
  obtain ⟨o, -, rfl⟩ := Option.map_eq_some_iff.mp hs
  obtain ⟨stage, call, hcalled, hgate⟩ := Inquiry.call_of_passes env id i hpasses
  refine ⟨i, stage, call, gate, ?_, hclosed, h.recorded.called_iff.mpr hcalled, ?_, hgate⟩
  · exact (Loop.mem_waiting_select FileJob.join?_unwraps).mp hwaits
  · rw [h.recorded.cancelled_iff]
    exact Inquiry.cancelled_notMem_of_passes env id i hpasses _ call

end Lane

/-- In every run, the specifiers of a file whose resolution is under way are where they have come
to. -/
theorem World.attentive_run {env : Nat → Environment} (options : Options) (libName : String)
    (registries : Nat → Registry) (actions : List Action) {id : FileId} {l : Lane}
    (hl : ((initial options libName registries).run env actions).lane? id = some l) :
    l.Attentive env options id := by
  refine (lane_run (P := fun l => l.Lawful env options id ∧ l.Attentive env options id)
    (fun text opened => ⟨.inl (Lane.idle_fresh id text opened), fun hs => ?_⟩)
    (fun _ registries h => ⟨h.1.turn registries, h.2.turn h.1 registries⟩)
    (fun _ _ _ ht h => ⟨h.1.touch ht, h.2.touch h.1 ht⟩) libName registries actions hl).2
  cases hs

end DepGraph
