import DepGraph.Proofs.Outcome

/-!
# Who failed first

* `Record.Fails` — an occurrence has failed.
* `Lane.failing?` — the failure that a resolution is bound to end with: `Lane.Lawful.failing_turn`
  says that it stays, `Lane.Lawful.failing_none` that without it nobody has failed, and
  `Lane.Lawful.first_turn` that the turn that brings it is that of one occurrence.
* `Mishap` — what goes wrong with an occurrence.
* `Lane.Underway.mishap`, `Lane.Closed.failed_iff` — an occurrence fails with what goes wrong.
-/

set_option autoImplicit false

namespace DepGraph

/-- Occurrence `i` has ended with a failure. -/
def Record.Fails (i : Nat) (failure : Ending Fault Empty) (r : Record) : Prop :=
  ∃ work e, r.work = some work ∧ work.join.members[i]? = some (.ended e) ∧
    e.failure? = some failure

/-- Occurrence `i` has made calls, none of them was cancelled, and it has ended. -/
structure Record.CarriedThrough (log : List Event) (id : FileId) (i : Nat) (r : Record) : Prop where
  called : ∃ stage call, .called ⟨id, i, stage⟩ call ∈ log
  uncancelled : ∀ stage call, .cancelled ⟨id, i, stage⟩ call ∉ log
  ended : ∃ work e, r.work = some work ∧ work.join.members[i]? = some (.ended e)

/-- What goes wrong with occurrence `i` of a file, with the failure that comes of it: a call fails,
or a value is read that is no typings. -/
inductive Mishap (env : Environment) (options : Options) (log : List Event) (id : FileId) (i : Nat)
    (o : Occurrence) : Ending Fault Empty → Prop
  | call {stage : Nat} {call : Call} {cause : Ending Cause Empty} {failure : Ending Fault Empty}
    (hcalled : .called ⟨id, i, stage⟩ call ∈ log)
    (hfails : env.failureOf ⟨id, i, stage⟩ call = some cause)
    (hwraps : Inquiry.Wraps id.name o.text call cause failure) :
    Mishap env options log id i o failure
  | typings {value : Value} {address : String}
    (hreads : Policy.Reads env options id i o value address) (hbad : Typings.Malformed value) :
    Mishap env options log id i o (.raised (.badTypings value address))

theorem Mishap.mono {env : Environment} {options : Options} {log log' : List Event} {id : FileId}
    {i : Nat} {o : Occurrence} {failure : Ending Fault Empty}
    (h : Mishap env options log id i o failure) (hsub : log ⊆ log') :
    Mishap env options log' id i o failure := by
  cases h with
  | call hcalled hfails hwraps => exact .call (hsub hcalled) hfails hwraps
  | typings hreads hbad => exact .typings hreads hbad

/-- The calls of a file are among its events. -/
theorem Event.called_mem_filter {log : List Event} {id : FileId} {i stage : Nat}
    {call : Call} : .called ⟨id, i, stage⟩ call ∈ log.filter (Event.isOf id) ↔
      .called ⟨id, i, stage⟩ call ∈ log := by
  simp [List.mem_filter, Event.isOf]

theorem Event.cancelled_mem_filter {log : List Event} {id : FileId} {i stage : Nat}
    {call : Call} : .cancelled ⟨id, i, stage⟩ call ∈ log.filter (Event.isOf id) ↔
      .cancelled ⟨id, i, stage⟩ call ∈ log := by
  simp [List.mem_filter, Event.isOf]

theorem Record.carriedThrough_filter {r : Record} {log : List Event} {id : FileId} {i : Nat} :
    r.CarriedThrough (log.filter (Event.isOf id)) id i ↔ r.CarriedThrough log id i := by
  have hcalled : (∃ stage call, .called ⟨id, i, stage⟩ call ∈ log.filter (Event.isOf id)) ↔
      ∃ stage call, .called ⟨id, i, stage⟩ call ∈ log := by
    simp only [Event.called_mem_filter]
  have hcancelled : (∀ stage call, .cancelled ⟨id, i, stage⟩ call ∉ log.filter (Event.isOf id)) ↔
      ∀ stage call, .cancelled ⟨id, i, stage⟩ call ∉ log := by
    simp only [Event.cancelled_mem_filter]
  exact ⟨fun h => ⟨hcalled.mp h.called, hcancelled.mp h.uncancelled, h.ended⟩,
    fun h => ⟨hcalled.mpr h.called, hcancelled.mpr h.uncancelled, h.ended⟩⟩

namespace Lane

variable {envs : Nat → Environment} {env : Environment} {options : Options} {id : FileId}
  {resolver : Nat} {occurrences : List Occurrence} {l l' : Lane} {a : Action}
  {ending : Ending Fault Dependencies} {failure : Ending Fault Empty}

/-! ## The failure that is to come -/

/-- A closed lane has ended with the failure that it was bound to end with. -/
theorem Closed.failing?_eq (h : Closed env options id resolver occurrences ending l) :
    l.failing? = ending.failure? := by
  obtain ⟨join, events, verdict, registry, hwork, hover, -, hyields, rfl⟩ := h.finished
  rw [failing?_eq hwork, hover.failing_eq, outcomeOf_failure]
  rcases hyields with hv | ⟨hnil, rfl⟩
  · simp [hv]
  · -- Nobody is there to be blamed.
    cases hv : join.tally.verdict with
    | none => rfl
    | some v =>
      cases hf : v.failure? with
      | none => exact hf
      | some failure =>
        obtain ⟨i, -, e, -, hm, -⟩ := hover.blames v failure hv hf
        simp [hnil] at hm

theorem Idle.failing?_eq (h : l.Idle id) : l.failing? = none := by
  simp [failing?, h.work]

theorem Idle.not_fails (h : l.Idle id) (i : Nat) : ¬l.record.Fails i failure := by
  rintro ⟨work, e, hwork, -⟩
  rw [h.work] at hwork
  cases hwork

/-- What is known of the join of a resolution that was started. -/
theorem Started.accounts (h : Started envs options id resolver occurrences l) :
    ∃ join, l.record.work = some ⟨resolver, occurrences, join⟩ ∧
      Join.Accounts l.joint join ∧ join.tally.Sound := by
  rcases h with h | ⟨ending, h⟩
  · obtain ⟨join, events, hwork, hrunning, -⟩ := h.running
    exact ⟨join, hwork, hrunning.accounts, hrunning.sound⟩
  · obtain ⟨join, events, verdict, registry, hwork, hover, -⟩ := h.finished
    exact ⟨join, hwork, hover.accounts, hover.sound⟩

/-- As long as no failure is to come, no occurrence has failed. -/
theorem Lawful.failing_none (h : Lawful envs options id l) (hnone : l.failing? = none) (i : Nat) :
    ¬l.record.Fails i failure := by
  rcases h with h | ⟨resolver, occurrences, h⟩
  · exact h.not_fails i
  · obtain ⟨join, hwork, haccounts, hsound⟩ := h.accounts
    rw [failing?_eq hwork] at hnone
    rintro ⟨work, e, hwork', hm, hf⟩
    obtain rfl := Option.some.inj (hwork.symm.trans hwork')
    rw [haccounts.failing_none hsound hnone hm] at hf
    cases hf

/-- A failure to come is that of an occurrence. -/
theorem Lawful.failing_some (h : Lawful envs options id l) (hf : l.failing? = some failure) :
    ∃ i, l.record.Fails i failure := by
  rcases h with h | ⟨resolver, occurrences, h⟩
  · rw [h.failing?_eq] at hf
    cases hf
  · obtain ⟨join, hwork, haccounts, hsound⟩ := h.accounts
    rw [failing?_eq hwork] at hf
    obtain ⟨i, e, hm, hfail⟩ := haccounts.failing_some hsound hf
    exact ⟨i, _, e, hwork, hm, hfail⟩

/-- A touch brings no failure, and takes none back. -/
theorem Touch.failing (h : Touch envs options id a l l') (hl : Lawful envs options id l) :
    l'.failing? = l.failing? := by
  cases h with
  | read => rfl
  | start hs =>
    rename_i k found notices he hby
    have hidle := hl.idle_of_unstarted hs
    rw [hidle.failing?_eq, failing?_eq rfl, hidle.joint_start]
    rfl
  | join => rfl
  | giveUp => rfl
  | write => rfl
  | release =>
    rename_i gate _
    rcases hl with hl | ⟨resolver, occurrences, hl⟩
    · simp [failing?, hl.work]
    · obtain ⟨join, hwork, haccounts, -⟩ := hl.accounts
      have hwork' : ({ l with loop := l.loop.release gate } : Lane).record.work =
        some ⟨resolver, occurrences, join⟩ := hwork
      rw [failing?_eq hwork, failing?_eq hwork', joint_release]
      exact haccounts.failing_release gate

/-- **A failure that is to come stays the one to come**, whatever job is carried out. -/
theorem Lawful.failing_turn (h : Lawful envs options id l) (hf : l.failing? = some failure)
    (registries : Nat → Registry) : (l.turn id registries).failing? = some failure := by
  rcases h with h | ⟨resolver, occurrences, h | ⟨ending, h⟩⟩
  · rwa [h.turn]
  · cases hnext : l.loop.next? with
    | none =>
      rwa [Lane.turn_of_none hnext]
    | some p =>
      obtain ⟨job, loop⟩ := p
      rcases h.turn_cases hnext registries with
        ⟨job, join, events, rfl, hwork, hrunning, -, -, -, hturn⟩ | ⟨ending, hclosed, hending, -⟩
      · rw [failing?_eq hwork] at hf
        obtain ⟨-, hloop, hjoin⟩ := join.perform_joint loop job
        have hafter := hrunning.accounts.failing_perform (joint_next? hnext) hf
        rw [← hloop, ← hjoin] at hafter
        rw [hturn]
        exact hafter
      · rw [hclosed.failing?_eq, ← hending, hf]
  · rwa [(h.turn registries).failing?_eq, ← h.failing?_eq]

/-- **The turn that brings the failure** is that of one occurrence, which is then the only one to
have failed. -/
theorem Lawful.first_turn (h : Lawful envs options id l) (hnone : l.failing? = none)
    {registries : Nat → Registry} (hf : (l.turn id registries).failing? = some failure) :
    ∃ resolver occurrences i, Underway (envs resolver) options id resolver occurrences
        (l.turn id registries) ∧
      ∀ j g, (l.turn id registries).record.Fails j g ↔ j = i ∧ g = failure := by
  have hbefore : ∀ i g, ¬l.record.Fails i g := fun i g => h.failing_none hnone i
  obtain ⟨i, hi⟩ := (h.turn registries).failing_some hf
  rcases h with h | ⟨resolver, occurrences, h | ⟨ending, h⟩⟩
  · rw [h.turn, hnone] at hf
    cases hf
  · cases hnext : l.loop.next? with
    | none =>
      rw [Lane.turn_of_none hnext, hnone] at hf
      cases hf
    | some p =>
      obtain ⟨job, loop⟩ := p
      rcases h.turn_cases hnext registries with
        ⟨job, join, events, rfl, hwork, hrunning, hrecorded, hwake, hlaunch, hturn⟩ |
          ⟨ending, hclosed, hending, -⟩
      · rw [hturn] at hf hi ⊢
        refine ⟨resolver, occurrences, i, h.carried hnext hrunning hrecorded hwake hlaunch, ?_⟩
        -- Whoever has failed now had its turn now.
        have hjob : ∀ {j g},
            (l.carried id loop ⟨resolver, occurrences, join⟩ job).record.Fails j g →
            job = .turn j := by
          rintro j g ⟨work, e, hwork', hm, hg⟩
          cases hwork'
          by_contra hne
          have hm' : (join.perform FileJob.join loop job).2.2.members[j]? = some (.ended e) := hm
          rw [(join.perform_joint loop job).2.2, Join.members_perform _ hne] at hm'
          exact hbefore j g ⟨_, e, hwork, hm', hg⟩
        intro j g
        constructor
        · intro hj
          obtain rfl : i = j := by
            have := (hjob hi).symm.trans (hjob hj)
            simpa using this
          obtain ⟨work, e, hwork₁, hm, hg⟩ := hj
          obtain ⟨work', e', hwork₂, hm', hg'⟩ := hi
          cases hwork₁
          cases hwork₂
          rw [hm] at hm'
          cases hm'
          exact ⟨rfl, Option.some.inj (hg.symm.trans hg')⟩
        · rintro ⟨rfl, rfl⟩
          exact hi
      · rw [hclosed.failing?_eq, ← hending, hnone] at hf
        cases hf
  · rw [(h.turn registries).failing?_eq, ← h.failing?_eq, hnone] at hf
    cases hf

/-! ## What goes wrong -/

section Mishaps

variable {events : Nat → List Event} {i : Nat} {o : Occurrence} {e : Ending Fault (Option String)}

/-- The calls of an occurrence in the log are those recorded of it. -/
theorem Recorded.mem_iff (h : l.Recorded id events) {event : Event}
    (hevent : event.isBy id i = true) : event ∈ l.log ↔ event ∈ events i := by
  have hmem : ∀ log : List Event, event ∈ log ↔ event ∈ log.filter (Event.isBy id i) := by
    intro log
    simp [List.mem_filter, hevent]
  rw [hmem l.log, h i, ← hmem]

theorem Recorded.called_iff (h : l.Recorded id events) {stage : Nat} {call : Call} :
    .called ⟨id, i, stage⟩ call ∈ l.log ↔ .called ⟨id, i, stage⟩ call ∈ events i :=
  h.mem_iff (by simp [Event.isBy])

theorem Recorded.cancelled_iff (h : l.Recorded id events) {stage : Nat} {call : Call} :
    .cancelled ⟨id, i, stage⟩ call ∈ l.log ↔ .cancelled ⟨id, i, stage⟩ call ∈ events i :=
  h.mem_iff (by simp [Event.isBy])

/-- An occurrence that was left alone and has failed has met with a mishap. -/
theorem mishap_of_failure (hrecorded : l.Recorded id events)
    (hcourse : (Member.ended e).OnCourse ((Policy.inquiry options id.name o).script env id i 0)
      (events i)) (hf : e.failure? = some failure) : Mishap env options l.log id i o failure := by
  rw [hcourse.ending_eq] at hf
  rcases Inquiry.script_failure env id i (Policy.onBehalfOf_inquiry options id.name o) hf with
    ⟨stage, call, cause, hmem, hfails, hwraps⟩ | ⟨f, hobjection, rfl⟩
  · rw [← hcourse.events_eq] at hmem
    exact .call (hrecorded.called_iff.mpr hmem) hfails hwraps
  · obtain ⟨value, address, hreads, hbad, rfl⟩ :=
      (Policy.objection_iff options env id i).mp hobjection
    exact .typings hreads hbad

/-- An occurrence that was left alone and has failed was carried through. -/
theorem carriedThrough_of_failure (hrecorded : l.Recorded id events) {work : Work}
    (hwork : l.record.work = some work) (hm : work.join.members[i]? = some (.ended e))
    (hcourse : (Member.ended e).OnCourse ((Policy.inquiry options id.name o).script env id i 0)
      (events i)) (hf : e.failure? = some failure) : l.record.CarriedThrough l.log id i := by
  refine ⟨?_, fun stage call hmem => ?_, work, e, hwork, hm⟩
  · cases mishap_of_failure hrecorded hcourse hf with
    | call hcalled => exact ⟨_, _, hcalled⟩
    | typings hreads =>
      have hcalled := hreads.called
      rw [← hcourse.events_eq] at hcalled
      exact ⟨_, _, hrecorded.called_iff.mpr hcalled⟩
  · rw [hrecorded.cancelled_iff, hcourse.events_eq] at hmem
    exact Inquiry.cancelled_notMem_script env id i 0 _ _ _ hmem

/-- An occurrence whose specifiers are under way fails with a mishap. -/
theorem Underway.mishap (h : Underway env options id resolver occurrences l)
    (hf : l.record.Fails i failure) :
    ∃ o, occurrences[i]? = some o ∧ Mishap env options l.log id i o failure := by
  obtain ⟨join, events, hwork, hrunning, hrecorded⟩ := h.running
  obtain ⟨work, e, hwork', hm, hfail⟩ := hf
  obtain rfl := Option.some.inj (hwork.symm.trans hwork')
  obtain ⟨s, hs, hcourse⟩ := hrunning.along.member hm
  rw [World.getElem?_scriptsOf] at hs
  obtain ⟨o, ho, rfl⟩ := Option.map_eq_some_iff.mp hs
  exact ⟨o, ho, mishap_of_failure hrecorded hcourse hfail⟩

/-- **A closed lane has failed if and only if** a call of an occurrence that was carried through
has failed, or such an occurrence has read a value that is no typings. -/
theorem Closed.failed_iff (h : Closed env options id resolver occurrences ending l) :
    ending.failure? ≠ none ↔ ∃ i o, occurrences[i]? = some o ∧ l.record.CarriedThrough l.log id i ∧
      ((∃ stage call cause, .called ⟨id, i, stage⟩ call ∈ l.log ∧
          env.failureOf ⟨id, i, stage⟩ call = some cause) ∨
        ∃ value address, Policy.Reads env options id i o value address ∧
          Typings.Malformed value) := by
  obtain ⟨join, events, verdict, registry, hwork, hover, hrecorded, hyields, rfl⟩ := h.finished
  rw [outcomeOf_failure]
  constructor
  · intro hne
    obtain ⟨failure, hf⟩ := Option.ne_none_iff_exists'.mp hne
    rcases hyields with hv | ⟨-, rfl⟩
    · obtain ⟨i, s, e, hs, hm, hcourse, hfail⟩ := hover.blames verdict failure hv hf
      rw [World.getElem?_scriptsOf] at hs
      obtain ⟨o, ho, rfl⟩ := Option.map_eq_some_iff.mp hs
      refine ⟨i, o, ho, carriedThrough_of_failure hrecorded hwork hm hcourse hfail, ?_⟩
      cases mishap_of_failure hrecorded hcourse hfail with
      | call hcalled hfails => exact .inl ⟨_, _, _, hcalled, hfails⟩
      | typings hreads hbad => exact .inr ⟨_, _, hreads, hbad⟩
    · cases hf
  · rintro ⟨i, o, ho, hcarried, hmishap⟩ hnone
    obtain ⟨addresses, rfl⟩ := Ending.failure?_eq_none.mp hnone
    obtain ⟨address, -, -, hcourse⟩ := (returns_each hover hyields).2 i o ho
    -- The occurrence has returned, as its script does.
    have hreturned :
        ((Policy.inquiry options id.name o).script env id i 0).ending.failure? = none := by
      rw [← hcourse.ending_eq]
      rfl
    rcases hmishap with ⟨stage, call, cause, hcalled, hfails⟩ | ⟨value, address', hreads, hbad⟩
    · rw [hrecorded.called_iff, hcourse.events_eq] at hcalled
      exact Inquiry.failure_of_called env id i hcalled hfails hreturned
    · have hobjection :=
        (Policy.objection_iff options env id i).mpr ⟨value, address', hreads, hbad, rfl⟩
      rw [Inquiry.ending_of_objection env id i hobjection] at hreturned
      cases hreturned

end Mishaps

end Lane

end DepGraph
