import DepGraph.Proofs.Failing

/-!
# The course of a join

* `Join.Along` — every member is where its script has come to.
* `Join.Running` — nobody has woken to a verdict yet: every member goes its own way.
* `Join.Over` — somebody has; what goes on is of no consequence.
* `Join.Running.perform`, `Join.Over.perform` — jobs leave a join running, or over.
* `Join.Running.finish`, `Join.Running.giveUp`, `Join.Running.nothing` — how it comes to be over.
* `Join.Resting` — nobody goes on by himself any more.
-/

set_option autoImplicit false

namespace DepGraph.Join

variable {ε φ α : Type}

/-! ## Members along their scripts -/

/-- Every member stands to its script, and to the events recorded of it, as `Q` says. -/
structure Along (Q : Script ε φ α → List ε → Member ε φ α → Prop) (scripts : List (Script ε φ α))
    (events : Nat → List ε) (join : Join ε φ α) : Prop where
  length : join.members.length = scripts.length
  each : ∀ i s, scripts[i]? = some s → ∃ m, join.members[i]? = some m ∧ Q s (events i) m

/-- The events of each member, once a job has recorded some more. -/
def noted (job : JoinJob) (new : List ε) (events : Nat → List ε) (i : Nat) : List ε :=
  if job = .turn i then events i ++ new else events i

variable {Q : Script ε φ α → List ε → Member ε φ α → Prop} {scripts : List (Script ε φ α)}
  {events : Nat → List ε} {loop loop' : Loop JoinJob} {join : Join ε φ α} {job : JoinJob}

theorem along_ofScripts (scripts : List (Script ε φ α)) :
    Along Member.OnCourse scripts (fun _ => []) (Join.ofScripts scripts) := by
  refine ⟨by simp [ofScripts], fun i s hs => ⟨.active [] s, ?_, Member.onCourse_first s⟩⟩
  simp [ofScripts, hs]

theorem Along.mono {Q' : Script ε φ α → List ε → Member ε φ α → Prop}
    (h : Along Q scripts events join) (hQ : ∀ s es m, Q s es m → Q' s es m) :
    Along Q' scripts events join := by
  refine ⟨h.length, fun i s hs => ?_⟩
  obtain ⟨m, hm, hq⟩ := h.each i s hs
  exact ⟨m, hm, hQ _ _ _ hq⟩

/-- What holds of a member at its place in its script. -/
theorem Along.member (h : Along Q scripts events join) {i : Nat} {m : Member ε φ α}
    (hm : join.members[i]? = some m) : ∃ s, scripts[i]? = some s ∧ Q s (events i) m := by
  have hlt : i < scripts.length := by
    rw [← h.length]
    exact (List.getElem?_eq_some_iff.mp hm).1
  obtain ⟨m', hm', hq⟩ := h.each i scripts[i] (List.getElem?_eq_getElem hlt)
  obtain rfl := Option.some.inj (hm.symm.trans hm')
  exact ⟨_, List.getElem?_eq_getElem hlt, hq⟩

theorem turn_eq (isOpen : Gate → Bool) {i : Nat} {m : Member ε φ α}
    (hm : join.members[i]? = some m) :
    join.turn isOpen i = ((turnOf isOpen m).1,
      { join with members := join.members.set i (turnOf isOpen m).2.1 },
      (turnOf isOpen m).2.2) := by
  simp [turn, hm]

/-- A job takes the member whose turn it is on in its script. -/
theorem Along.perform (h : Along Q scripts events join)
    (hQ : ∀ s es m isOpen, Q s es m → Q s (es ++ (turnOf isOpen m).1) (turnOf isOpen m).2.1)
    (loop : Loop JoinJob) (job : JoinJob) :
    Along Q scripts (noted job (join.perform id loop job).1 events)
      (join.perform id loop job).2.2 := by
  have hnot : ∀ i, job ≠ .turn i → ∀ new : List ε, noted job new events i = events i :=
    fun i hi new => if_neg hi
  cases job with
  | launch => exact ⟨h.length, fun i s hs => by rw [hnot i (by simp)]; exact h.each i s hs⟩
  | wake => exact ⟨h.length, fun i s hs => by rw [hnot i (by simp)]; exact h.each i s hs⟩
  | hear i =>
    have hmembers : (join.perform id loop (.hear i)).2.2.members = join.members := by
      simp only [Join.perform, hear]
      split <;> rfl
    refine ⟨by rw [hmembers, h.length], fun k s hs => ?_⟩
    rw [hnot k (by simp), hmembers]
    exact h.each k s hs
  | turn i =>
    cases hm : join.members[i]? with
    | none =>
      have hturn : join.turn loop.isOpen i = ([], join, .idle) := by simp [turn, hm]
      simp only [Join.perform, hturn]
      refine ⟨h.length, fun k s hs => ?_⟩
      have hsame : noted (.turn i) [] events k = events k := by
        unfold noted
        split <;> simp
      rw [hsame]
      exact h.each k s hs
    | some m =>
      simp only [Join.perform, turn_eq loop.isOpen hm]
      refine ⟨by simpa using h.length, fun k s hs => ?_⟩
      have hlt : i < join.members.length := (List.getElem?_eq_some_iff.mp hm).1
      obtain ⟨mk, hmk, hq⟩ := h.each k s hs
      by_cases hik : i = k
      · subst hik
        obtain rfl := Option.some.inj (hm.symm.trans hmk)
        refine ⟨_, List.getElem?_set_self hlt, ?_⟩
        rw [noted, if_pos rfl]
        exact hQ s (events i) m loop.isOpen hq
      · refine ⟨mk, by simp only [List.getElem?_set_ne hik, hmk], ?_⟩
        rw [hnot k (by simpa using hik)]
        exact hq

theorem Along.stop (h : Along Member.Follows scripts events join) :
    Along Member.Follows scripts events join.stop := by
  refine ⟨by simpa [Join.stop] using h.length, fun i s hs => ?_⟩
  obtain ⟨m, hm, hq⟩ := h.each i s hs
  exact ⟨m.stop, by simp [Join.stop, hm], hq.stop⟩

/-- A member to be blamed for a failure: left alone, it came to it. -/
def Blames (scripts : List (Script ε φ α)) (events : Nat → List ε) (join : Join ε φ α)
    (failure : Ending φ Empty) : Prop :=
  ∃ (i : Nat) (s : Script ε φ α) (e : Ending φ α), scripts[i]? = some s ∧
    join.members[i]? = some (.ended e) ∧ (Member.ended e).OnCourse s (events i) ∧
    e.failure? = some failure

/-! ## Before anybody wakes -/

/-- Every member goes its own way, and the verdict, if there is one, is on its way. -/
structure Running (scripts : List (Script ε φ α)) (events : Nat → List ε) (loop : Loop JoinJob)
    (join : Join ε φ α) : Prop where
  accounts : Accounts loop join
  sound : join.tally.Sound
  along : Along Member.OnCourse scripts events join
  wake : loop.load .wake = if join.tally.verdict.isSome then 1 else 0
  launch : join.members = [] → 0 < loop.load .launch ∧ join.tally.verdict = none

theorem running_ofScripts (scripts : List (Script ε φ α)) (opened : List Gate) :
    Running scripts (fun _ => []) { ready := [.launch], opened } (Join.ofScripts scripts) := by
  refine ⟨accounts_ofScripts scripts opened, Tally.sound_start _, along_ofScripts scripts, ?_, ?_⟩
  · simp [Loop.load, ofScripts, Tally.start]
  · exact fun _ => ⟨by simp [Loop.load], rfl⟩

namespace Running

theorem sound_perform (ha : Accounts loop join) (hs : join.tally.Sound)
    (hnext : loop.next? = some (job, loop')) :
    (join.perform id loop' job).2.2.tally.Sound := by
  cases job with
  | launch => exact hs
  | wake => exact hs
  | turn i =>
    simp only [Join.perform, turn]
    split <;> exact hs
  | hear i =>
    obtain ⟨e, hm, hheard, -⟩ := ha.hear_ended (Loop.load_pos_of_next? hnext)
    rw [Join.perform_hear loop' hm]
    exact hs.hear hheard e

/-- **Jobs leave a join running**, as long as nobody wakes and there is something to wait for. -/
theorem perform (h : Running scripts events loop join) (hnext : loop.next? = some (job, loop'))
    (hwake : job ≠ .wake) (hlaunch : job = .launch → join.members ≠ []) :
    Running scripts (noted job (join.perform id loop' job).1 events)
      (join.perform id loop' job).2.1 (join.perform id loop' job).2.2 := by
  have halong := h.along.perform (fun s es m isOpen hm => hm.turnOf isOpen) loop' job
  have hload := Loop.load_next? hnext
  have hw := (hload .wake).symm.trans h.wake
  rw [if_neg hwake, Nat.add_zero] at hw
  refine ⟨h.accounts.perform hnext, sound_perform h.accounts h.sound hnext, halong, ?_,
    fun hnil => ?_⟩
  · cases job with
    | launch =>
      have hcount : ((List.range join.members.length).map fun i => id (JoinJob.turn i)).count
          .wake = 0 := by
        refine List.count_eq_zero.mpr fun hmem => ?_
        obtain ⟨i, -, hi⟩ := List.mem_map.mp hmem
        cases hi
      refine (Loop.load_postAll _ _ _).trans ?_
      rw [hcount, Nat.add_zero]
      exact hw
    | wake => exact absurd rfl hwake
    | turn i =>
      obtain ⟨⟨m, hm, hrunning⟩, -⟩ :=
        h.accounts.turn_running (Loop.load_pos_of_next? hnext)
      rcases turnOf_spec loop'.isOpen hrunning none with
        ⟨es, e, ht, -⟩ | ⟨es, gate, farewell, rest, ht, -, -⟩
      · rw [perform_turn_over loop' hm ht]
        simp only [Loop.load_post, reduceCtorEq, if_false, Nat.add_zero, hw]
      · rw [perform_turn_at loop' hm ht]
        simp only [Loop.load_park, reduceCtorEq, if_false, Nat.add_zero, hw]
    | hear i =>
      obtain ⟨e, hm, -⟩ := h.accounts.hear_ended (Loop.load_pos_of_next? hnext)
      rw [Join.perform_hear loop' hm]
      cases hv : join.tally.verdict with
      | some v =>
        have hstands := Tally.hear_of_verdict hv i e
        simp [Tally.decides, hv, hstands, hw]
      | none =>
        rw [hv] at hw
        cases hv' : (join.tally.hear i e).verdict with
        | none => simpa [Tally.decides, hv, hv'] using hw
        | some v =>
          simp only [Option.isSome_none, Bool.false_eq_true, if_false] at hw
          simp [Tally.decides, hv, hv', Loop.load_post, hw]
  · -- A join without members has its launch ahead of it.
    have hlen : join.members = [] := by
      have hlength := halong.length
      rw [hnil, ← h.along.length] at hlength
      exact List.length_eq_zero_iff.mp hlength.symm
    cases job with
    | launch => exact absurd hlen (hlaunch rfl)
    | wake => exact absurd rfl hwake
    | turn i =>
      obtain ⟨⟨m, hm, -⟩, -⟩ := h.accounts.turn_running (Loop.load_pos_of_next? hnext)
      simp [hlen] at hm
    | hear i =>
      obtain ⟨e, hm, -⟩ := h.accounts.hear_ended (Loop.load_pos_of_next? hnext)
      simp [hlen] at hm

theorem release (h : Running scripts events loop join) (gate : Gate) :
    Running scripts events (loop.release gate) join :=
  ⟨h.accounts.release gate, h.sound, h.along, (loop.load_release gate _).trans h.wake,
    fun hnil => (h.launch hnil).imp_left fun hl => hl.trans_eq (loop.load_release gate _).symm⟩

/-- While somebody is to be launched nobody has failed. -/
theorem launch_zero (h : Running scripts events loop join) {v : Ending φ (List α)}
    (hv : join.tally.verdict = some v) (hne : join.members ≠ []) : loop.load .launch = 0 := by
  by_contra hpos
  have hunheard : ∀ (i : Nat) (x : Ending φ α), join.tally.heard[i]? ≠ some (some x) := by
    intro i x hx
    have hm := h.accounts.heard_ended hx
    obtain ⟨⟨_, _, hactive⟩, -⟩ := h.accounts.launch_first (by omega) hm
    cases hactive
  cases hf : v.failure? with
  | some failure =>
    obtain ⟨part, hpart, -⟩ := h.sound.failed v failure hv hf
    obtain ⟨i, hi⟩ := List.mem_iff_getElem?.mp hpart
    exact hunheard i part hi
  | none =>
    obtain ⟨values, rfl⟩ := Ending.failure?_eq_none.mp hf
    have hall := h.sound.returned values hv
    have hlen := h.accounts.length_eq
    cases values with
    | nil =>
      rw [hall] at hlen
      exact hne (List.length_eq_zero_iff.mp hlen.symm)
    | cons a values => exact hunheard 0 (.returned a) (by rw [hall]; rfl)

theorem blames (h : Running scripts events loop join) {v : Ending φ (List α)}
    (hv : join.tally.verdict = some v) {failure : Ending φ Empty} (hf : v.failure? = some failure) :
    Blames scripts events join failure := by
  obtain ⟨part, hpart, hfail⟩ := h.sound.failed v failure hv hf
  obtain ⟨i, hi⟩ := List.mem_iff_getElem?.mp hpart
  have hm := h.accounts.heard_ended hi
  obtain ⟨s, hs, hcourse⟩ := h.along.member hm
  exact ⟨i, s, part, hs, hm, hcourse, hfail⟩

end Running

/-! ## Once somebody has woken -/

/-- The verdict was taken note of; members that were cancelled may still have a last turn. -/
structure Over (scripts : List (Script ε φ α)) (events : Nat → List ε) (loop : Loop JoinJob)
    (join : Join ε φ α) : Prop where
  accounts : Accounts loop join
  sound : join.tally.Sound
  along : Along Member.Follows scripts events join
  wake : loop.load .wake = 0
  launch : loop.load .launch = 0
  decided : join.tally.verdict.isSome = true ∨ join.members = []
  blames : ∀ v failure, join.tally.verdict = some v → v.failure? = some failure →
    Blames scripts events join failure

theorem noted_of_ended (ha : Accounts loop join) (hnext : loop.next? = some (job, loop')) {i : Nat}
    {e : Ending φ α} (hm : join.members[i]? = some (.ended e)) (new : List ε)
    (events : Nat → List ε) : noted job new events i = events i := by
  refine if_neg ?_
  rintro rfl
  obtain ⟨⟨m, hm', hrunning⟩, -⟩ := ha.turn_running (Loop.load_pos_of_next? hnext)
  obtain rfl := Option.some.inj (hm.symm.trans hm')
  cases hrunning

/-- A member that has ended stays as it is. -/
theorem ended_perform (ha : Accounts loop join) (hnext : loop.next? = some (job, loop')) {i : Nat}
    {e : Ending φ α} (hm : join.members[i]? = some (.ended e)) :
    (join.perform id loop' job).2.2.members[i]? = some (.ended e) := by
  rw [members_perform, hm]
  rintro rfl
  obtain ⟨⟨m, hm', hrunning⟩, -⟩ := ha.turn_running (Loop.load_pos_of_next? hnext)
  obtain rfl := Option.some.inj (hm.symm.trans hm')
  cases hrunning

theorem Blames.perform {failure : Ending φ Empty} (h : Blames scripts events join failure)
    (ha : Accounts loop join) (hnext : loop.next? = some (job, loop')) (new : List ε) :
    Blames scripts (noted job new events) (join.perform id loop' job).2.2 failure := by
  obtain ⟨i, s, e, hs, hm, hcourse, hf⟩ := h
  exact ⟨i, s, e, hs, ended_perform ha hnext hm, by rwa [noted_of_ended ha hnext hm], hf⟩

namespace Over

/-- Jobs leave a join over, and its verdict as it is. -/
theorem perform (h : Over scripts events loop join) (hnext : loop.next? = some (job, loop')) :
    Over scripts (noted job (join.perform id loop' job).1 events)
      (join.perform id loop' job).2.1 (join.perform id loop' job).2.2 ∧
    (join.perform id loop' job).2.2.tally.verdict = join.tally.verdict := by
  have halong := h.along.perform (fun s es m isOpen hm => hm.turnOf isOpen) loop' job
  have hload := Loop.load_next? hnext
  have hsound := Running.sound_perform h.accounts h.sound hnext
  have hpos := Loop.load_pos_of_next? hnext
  have hw := hload .wake
  have hl := hload .launch
  rw [h.wake] at hw
  rw [h.launch] at hl
  have hblames : ∀ v failure, join.tally.verdict = some v → v.failure? = some failure →
      Blames scripts (noted job (join.perform id loop' job).1 events)
        (join.perform id loop' job).2.2 failure :=
    fun v failure hv hf => (h.blames v failure hv hf).perform h.accounts hnext _
  have hkept : (join.perform id loop' job).2.2.tally.verdict = join.tally.verdict →
      (join.perform id loop' job).2.1.load .wake = 0 →
      (join.perform id loop' job).2.1.load .launch = 0 →
      Over scripts (noted job (join.perform id loop' job).1 events)
        (join.perform id loop' job).2.1 (join.perform id loop' job).2.2 ∧
      (join.perform id loop' job).2.2.tally.verdict = join.tally.verdict := by
    intro hv hwake hlaunch
    refine ⟨⟨h.accounts.perform hnext, hsound, halong, hwake, hlaunch, ?_, ?_⟩, hv⟩
    · rw [hv]
      refine h.decided.imp_right fun hnil => ?_
      have hlength := halong.length
      rw [← h.along.length, hnil] at hlength
      exact List.length_eq_zero_iff.mp hlength
    · rw [hv]
      exact hblames
  cases job with
  | launch => have := h.launch; omega
  | wake => have := h.wake; omega
  | turn i =>
    obtain ⟨⟨m, hm, hrunning⟩, -⟩ := h.accounts.turn_running hpos
    rcases turnOf_spec loop'.isOpen hrunning none with
      ⟨es, e, ht, -⟩ | ⟨es, gate, farewell, rest, ht, -, -⟩
    · refine hkept ?_ ?_ ?_ <;> rw [perform_turn_over loop' hm ht]
      · simp only [Loop.load_post, reduceCtorEq, if_false]
        omega
      · simp only [Loop.load_post, reduceCtorEq, if_false]
        omega
    · refine hkept ?_ ?_ ?_ <;> rw [perform_turn_at loop' hm ht]
      · simp only [Loop.load_park, reduceCtorEq, if_false]
        omega
      · simp only [Loop.load_park, reduceCtorEq, if_false]
        omega
  | hear i =>
    obtain ⟨e, hm, -⟩ := h.accounts.hear_ended hpos
    have hne : join.members ≠ [] := fun hnil => by simp [hnil] at hm
    obtain ⟨v, hv⟩ := Option.isSome_iff_exists.mp (h.decided.resolve_right hne)
    have hstands := Tally.hear_of_verdict hv i e
    have hwait : join.tally.decides i e = false := by simp [Tally.decides, hv]
    refine hkept ?_ ?_ ?_ <;> rw [Join.perform_hear loop' hm]
    · exact hstands.trans hv.symm
    · simp only [hwait, Bool.false_eq_true, if_false]
      omega
    · simp only [hwait, Bool.false_eq_true, if_false]
      omega

/-- A join that is over fails as its verdict says. -/
theorem failing_eq (h : Over scripts events loop join) :
    failing loop join = join.tally.verdict.bind Ending.failure? := by
  cases hv : join.tally.verdict with
  | some v => exact failing_of_verdict hv loop
  | none => exact failing_nil hv (h.decided.resolve_left (by simp [hv])) loop

theorem release (h : Over scripts events loop join) (gate : Gate) :
    Over scripts events (loop.release gate) join :=
  ⟨h.accounts.release gate, h.sound, h.along, (loop.load_release gate _).trans h.wake,
    (loop.load_release gate _).trans h.launch, h.decided, h.blames⟩

end Over

namespace Running

/-- Somebody wakes to a verdict that stands. -/
theorem finish (h : Running scripts events loop join) (hnext : loop.next? = some (.wake, loop'))
    {v : Ending φ (List α)} (hv : join.tally.verdict = some v) (hne : join.members ≠ []) :
    Over scripts events loop' join := by
  have hw := Loop.load_next? hnext .wake
  have hl := Loop.load_next? hnext .launch
  have hwake := h.wake
  rw [h.launch_zero hv hne] at hl
  simp only [hv, Option.isSome_some, if_true] at hwake
  simp only [if_true, reduceCtorEq, if_false] at hw hl
  exact ⟨h.accounts.perform_wake hnext, h.sound, h.along.mono fun _ _ _ => .inl, by omega, by omega,
    .inl (by simp [hv]), fun _ _ hv hf => h.blames hv hf⟩

/-- Somebody wakes and gives up what has not ended. -/
theorem giveUp (h : Running scripts events loop join) (hnext : loop.next? = some (.wake, loop'))
    {v : Ending φ (List α)} (hv : join.tally.verdict = some v) (hne : join.members ≠ []) :
    Over scripts events (join.abandon id loop').1 (join.abandon id loop').2 := by
  have hover := h.finish hnext hv hne
  obtain ⟨haccounts, hload, -⟩ := hover.accounts.abandon hover.launch
  refine ⟨haccounts, hover.sound, hover.along.stop, (hload _).trans hover.wake,
    (hload _).trans hover.launch, .inl (by simp [abandon, stop, hv]), fun v' failure hv' hf => ?_⟩
  obtain ⟨i, s, e, hs, hm, hcourse, hfail⟩ := hover.blames v' failure hv' hf
  exact ⟨i, s, e, hs, by simp [abandon, stop, hm, Member.stop], hcourse, hfail⟩

/-- There is nothing to wait for. -/
theorem nothing (h : Running scripts events loop join) (hnext : loop.next? = some (.launch, loop'))
    (hnil : join.members = []) : Over scripts events loop' join := by
  have hverdict := (h.launch hnil).2
  have hw := Loop.load_next? hnext .wake
  have hl := Loop.load_next? hnext .launch
  have hone := h.accounts.launch
  have hwake := h.wake
  simp only [hverdict, Option.isSome_none, Bool.false_eq_true, if_false] at hwake
  simp only [if_true, reduceCtorEq, if_false] at hw hl
  refine ⟨?_, h.sound, h.along.mono fun _ _ _ => .inl, by omega, by omega, .inr hnil, ?_⟩
  · have hafter := h.accounts.perform_launch hnext
    rw [hnil] at hafter
    simpa using hafter
  · intro v failure hv
    rw [hverdict] at hv
    cases hv

end Running

/-! ## Once nobody goes on -/

/-- Nobody goes on by himself: every member has ended, or is to end as cancelled. -/
def Resting (join : Join ε φ α) : Prop :=
  ∀ (i : Nat) (farewell : List ε) (rest : Script ε φ α),
    join.members[i]? ≠ some (.active farewell rest)

theorem resting_stop (join : Join ε φ α) : join.stop.Resting := by
  intro i farewell rest hm
  rw [show join.stop.members[i]? = join.members[i]?.map Member.stop by simp [stop]] at hm
  obtain ⟨m, -, hstop⟩ := Option.map_eq_some_iff.mp hm
  cases m <;> cases hstop

theorem resting_nil (h : join.members = []) : join.Resting := by
  intro i farewell rest hm
  simp [h] at hm

namespace Resting

/-- Jobs start nobody. -/
theorem perform (h : join.Resting) (loop : Loop JoinJob) (job : JoinJob) :
    (join.perform id loop job).2.2.Resting := by
  cases job with
  | launch => exact h
  | wake => exact h
  | hear i =>
    simp only [Join.perform, hear]
    split <;> exact h
  | turn i =>
    simp only [Join.perform, turn]
    split
    · exact h
    · rename_i m hm
      intro k farewell rest hk
      by_cases hik : i = k
      · subst hik
        have hlt := (List.getElem?_eq_some_iff.mp hm).1
        rw [List.getElem?_set_self hlt] at hk
        cases m with
        | active farewell' rest' => exact h i farewell' rest' hm
        | stopped farewell' => cases hk
        | ended e => cases hk
      · rw [List.getElem?_set_ne hik] at hk
        exact h k farewell rest hk

/-- Nothing waits at a gate. -/
theorem waiting_nil (h : join.Resting) (ha : Accounts loop join) : loop.waiting = [] := by
  refine List.eq_nil_iff_forall_not_mem.mpr fun p hp => ?_
  obtain ⟨-, i, farewell, rest, -, hm⟩ := ha.waiting p.1 p.2 hp
  exact h i farewell rest hm

end Resting

/-- All that was returned came from members that have ended. -/
theorem resting_of_returned (ha : Accounts loop join) (hs : join.tally.Sound) {values : List α}
    (hv : join.tally.verdict = some (.returned values)) : join.Resting := by
  intro i farewell rest hm
  have hseated := ha.seated i
  rw [hm] at hseated
  have hunheard : none ∈ join.tally.heard := List.mem_of_getElem? hseated.2.2
  rw [hs.returned values hv] at hunheard
  simp at hunheard

end DepGraph.Join
