import DepGraph.Proofs.Gatherings
import DepGraph.Proofs.Milestones

/-!
# A gathering of watched items

The log of a gathering tells what its items have come to, as long as it has no outcome.

* `Gathering.Watched` — the log says where every item stands.
* `Gathering.Orderly` — whoever has not started has a turn before anything else is dealt with.
* `Gathering.TurnsFirst` — so have all turns, if gates are opened only while nothing is due.
* `Gathering.Blamed` — the failure that a gathering is bound to end with is that of the item whose
  failure was recorded first.
* `Gathering.going_after` — all this holds while there is no outcome.
-/

set_option autoImplicit false

namespace DepGraph

variable {ε φ α : Type}

/-- The events of item `i` alone. -/
def own (i : Nat) (events : List (Nat × Milestone ε)) : List (Nat × Milestone ε) :=
  events.filter fun p => p.1 = i

section Own

variable {events new : List (Nat × Milestone ε)}

theorem own_append (i : Nat) (xs ys : List (Nat × Milestone ε)) :
    own i (xs ++ ys) = own i xs ++ own i ys :=
  List.filter_append ..

@[simp] theorem life_own_events (i : Nat) (events : List (Nat × Milestone ε)) :
    life i (own i events) = life i events := by
  simp only [life, own, List.filter_filter]
  congr 2
  funext p
  by_cases h : p.1 = i <;> simp [h]

/-- What one turn records is all of the member whose turn it is. -/
theorem noted_own {job : JoinJob} (h : ∀ p ∈ new, job = .turn p.1) :
    Join.noted job new (own · events) = (own · (events ++ new)) := by
  funext i
  rw [own_append]
  unfold Join.noted
  split
  · rename_i hjob
    subst hjob
    have hall : own i new = new := List.filter_eq_self.mpr fun p hp => by
      have := h p hp
      simpa [eq_comm] using this
    rw [hall]
  · rename_i hjob
    have hnone : own i new = [] := List.filter_eq_nil_iff.mpr fun p hp hi => by
      obtain rfl : p.1 = i := by simpa using hi
      exact hjob (h p hp)
    rw [hnone, List.append_nil]

theorem firstFailure_append_of_some {i : Nat} (h : firstFailure events = some i) :
    firstFailure (events ++ new) = some i := by
  unfold firstFailure at h ⊢
  obtain ⟨p, hp, hi⟩ := Option.map_eq_some_iff.mp h
  rw [List.find?_append, hp]
  exact congrArg some hi

theorem firstFailure_append_of_none (h : firstFailure events = none) :
    firstFailure (events ++ new) = firstFailure new := by
  unfold firstFailure at h ⊢
  rw [List.find?_append, Option.map_eq_none_iff.mp h, Option.none_or]

theorem isFailure_iff {milestone : Milestone ε} :
    milestone.isFailure = true ↔ milestone = .failed := by
  cases milestone <;> simp [Milestone.isFailure]

theorem firstFailure_eq_none : firstFailure events = none ↔ ∀ i, (i, .failed) ∉ events := by
  simp only [firstFailure, Option.map_eq_none_iff, List.find?_eq_none]
  constructor
  · exact fun h i hi => h _ hi rfl
  · rintro h ⟨i, milestone⟩ hp hfail
    obtain rfl := isFailure_iff.mp hfail
    exact h i hp

theorem mem_of_firstFailure {i : Nat} (h : firstFailure events = some i) :
    (i, .failed) ∈ events := by
  obtain ⟨⟨k, milestone⟩, hp, rfl⟩ := Option.map_eq_some_iff.mp h
  have hfail := List.find?_some hp
  obtain rfl : milestone = .failed := isFailure_iff.mp hfail
  exact List.mem_of_find?_eq_some hp

end Own

namespace Gathering

/-- Items run together and watched. -/
def watching (scripts : List (Script ε φ α)) : Gathering (Nat × Milestone ε) φ α :=
  ofScripts (scripts.mapIdx Script.watched)

/-- The members whose turns are due. -/
def due (g : Gathering ε φ α) : List Nat := g.loop.ready.filterMap JoinJob.turn?

/-- The members that are held at closed gates, in their order. -/
def held (g : Gathering ε φ α) : List Nat :=
  (List.range g.join.members.length).filter fun i =>
    g.loop.waiting.any fun p => decide (p.2 = .turn i) && !g.loop.isOpen p.1

variable {scripts : List (Script ε φ α)} {g : Gathering (Nat × Milestone ε) φ α}
  {job : JoinJob} {loop' : Loop JoinJob} {e : Ending φ (List α)} {failure : Ending φ Empty}

/-! ## The log -/

/-- The log says where every item stands. -/
structure Watched (scripts : List (Script ε φ α)) (g : Gathering (Nat × Milestone ε) φ α) :
    Prop where
  stage : Stage (scripts.mapIdx Script.watched) (own · g.events) g
  inRange : ∀ p ∈ g.events, p.1 < scripts.length

namespace Watched

theorem length_eq (h : Watched scripts g) : g.join.members.length = scripts.length := by
  have := h.stage.follows.length
  rwa [List.length_mapIdx] at this

theorem member (h : Watched scripts g) {i : Nat} {s : Script ε φ α} (hs : scripts[i]? = some s) :
    ∃ m, g.join.members[i]? = some m ∧ m.Follows (s.watched i) (own i g.events) :=
  h.stage.follows.each i (s.watched i) (by simp [hs])

theorem script (h : Watched scripts g) {i : Nat} {m : Member (Nat × Milestone ε) φ α}
    (hm : g.join.members[i]? = some m) :
    ∃ s, scripts[i]? = some s ∧ m.Follows (s.watched i) (own i g.events) := by
  have hlt := (List.getElem?_eq_some_iff.mp hm).1
  rw [h.length_eq] at hlt
  obtain ⟨m', hm', hfollows⟩ := h.member (List.getElem?_eq_getElem hlt)
  obtain rfl := Option.some.inj (hm.symm.trans hm')
  exact ⟨_, List.getElem?_eq_getElem hlt, hfollows⟩

theorem onCourse (h : Watched scripts g) (hnone : g.outcome = none) {i : Nat} {s : Script ε φ α}
    (hs : scripts[i]? = some s) :
    ∃ m, g.join.members[i]? = some m ∧ m.OnCourse (s.watched i) (own i g.events) :=
  (h.stage.running hnone).along.each i (s.watched i) (by simp [hs])

/-- What a job records is of the member whose turn it is. -/
theorem step_new (h : Watched scripts g) (hnext : g.loop.next? = some (job, loop')) :
    ∃ new, g.step.events = g.events ++ new ∧ (∀ p ∈ new, job = .turn p.1) ∧
      Watched scripts g.step := by
  obtain ⟨new, hevents, hjob, hstage⟩ := h.stage.step hnext
  have htags : ∀ p ∈ new, job = .turn p.1 ∧ p.1 < scripts.length := by
    intro p hp
    rcases hjob with ⟨i, rfl⟩ | rfl
    · obtain ⟨⟨m, hm, -⟩, -⟩ := h.stage.accounts.turn_running (Loop.load_pos_of_next? hnext)
      obtain ⟨s, hs, -⟩ := h.script hm
      obtain ⟨m', -, hfollows⟩ := hstage.follows.each i (s.watched i) (by simp [hs])
      obtain rfl : p.1 = i := hfollows.own p (by
        rw [Join.noted, if_pos rfl]
        exact List.mem_append_right _ hp)
      exact ⟨rfl, (List.getElem?_eq_some_iff.mp hs).1⟩
    · cases hp
  rw [noted_own fun p hp => (htags p hp).1, ← hevents] at hstage
  refine ⟨new, hevents, fun p hp => (htags p hp).1, hstage, fun p hp => ?_⟩
  rw [hevents] at hp
  exact (List.mem_append.mp hp).elim (h.inRange p) fun hp => (htags p hp).2

theorem move (h : Watched scripts g) (m : Move) : Watched scripts (g.move m) := by
  cases m with
  | release gate => exact ⟨h.stage.release gate, h.inRange⟩
  | tick =>
    change Watched scripts g.step
    cases hnext : g.loop.next? with
    | none =>
      rw [step_of_idle hnext]
      exact h
    | some p =>
      obtain ⟨_, -, -, h'⟩ := h.step_new hnext
      exact h'

end Watched

theorem watched_after (scripts : List (Script ε φ α)) (moves : List Move) :
    Watched scripts ((watching scripts).after moves) := by
  induction moves using List.reverseRecOn with
  | nil => exact ⟨stage_ofScripts _, by simp [watching, ofScripts]⟩
  | append_singleton moves m ih =>
    rw [after_concat]
    exact ih.move m

namespace Watched

/-- Every milestone in the log is of an item that is on its course. -/
theorem of_mem (h : Watched scripts g) (hnone : g.outcome = none) {i : Nat}
    {milestone : Milestone ε} (hi : (i, milestone) ∈ g.events) (hown : milestone.isRecord = false) :
    ∃ (s : Script ε φ α) (m : Member (Nat × Milestone ε) φ α), g.join.members[i]? = some m ∧
      m.OnCourse (s.watched i) (own i g.events) ∧ own i g.events ≠ [] ∧
      milestone ∈ life i (own i g.events) := by
  have hlt : i < scripts.length := h.inRange _ hi
  obtain ⟨m, hm, hcourse⟩ := h.onCourse hnone (List.getElem?_eq_getElem hlt)
  have hmem : (i, milestone) ∈ own i g.events := List.mem_filter.mpr ⟨hi, by simp⟩
  refine ⟨_, m, hm, hcourse, List.ne_nil_of_mem hmem, ?_⟩
  rw [life_own_events]
  exact (mem_life hown).mpr hi

/-- Nobody has failed who is not known to have ended so. -/
theorem ended_of_failed (h : Watched scripts g) (hnone : g.outcome = none) {i : Nat}
    (hi : (i, .failed) ∈ g.events) :
    ∃ e : Ending φ α, g.join.members[i]? = some (.ended e) ∧ e.failure? ≠ none := by
  obtain ⟨s, m, hm, hcourse, hstarted, hlife⟩ := h.of_mem hnone hi rfl
  have hwhole := hcourse.life_eq hstarted
  cases m with
  | active farewell rest =>
    rw [hwhole] at hlife
    simp at hlife
  | stopped farewell => exact absurd hwhole id
  | ended e =>
    obtain ⟨rfl, hwhole⟩ := hwhole
    rw [hwhole] at hlife
    have hfailed : (Milestone.ofEnding s.ending : Milestone ε) = .failed := by
      simpa [eq_comm] using hlife
    exact ⟨_, hm, Milestone.isFailure_ofEnding.mp (by rw [hfailed]; rfl)⟩

/-- Whoever has ended as a failure, left alone, has recorded so. -/
theorem failed_of_ended (h : Watched scripts g) (hnone : g.outcome = none) {i : Nat}
    {e : Ending φ α} (hm : g.join.members[i]? = some (.ended e)) (he : e.failure? ≠ none) :
    (i, .failed) ∈ g.events ∧ ∃ s, scripts[i]? = some s ∧ s.ending = e := by
  obtain ⟨s, hs, -⟩ := h.script hm
  obtain ⟨m, hm', hcourse⟩ := h.onCourse hnone hs
  obtain rfl := Option.some.inj (hm.symm.trans hm')
  have hstarted : own i g.events ≠ [] := by
    have := hcourse.started fun _ => true
    simpa [Join.turnOf] using this
  obtain ⟨rfl, hlife⟩ := hcourse.life_eq hstarted
  have hfailed : (Milestone.ofEnding s.ending : Milestone ε) = .failed :=
    isFailure_iff.mp (Milestone.isFailure_ofEnding.mpr he)
  rw [life_own_events, hfailed] at hlife
  exact ⟨(mem_life rfl).mp (by rw [hlife]; simp), s, hs, rfl⟩

end Watched

/-! ## Items start before anything else is dealt with -/

/-- The launch is all there is, or it is over and whoever has not started has a turn before all
else. -/
def Orderly (scripts : List (Script ε φ α)) (g : Gathering (Nat × Milestone ε) φ α) : Prop :=
  g.loop.ready = [.launch] ∧ g.loop.waiting = [] ∨
    .launch ∉ g.loop.ready ∧ ∃ (front : List Nat) (rest : List JoinJob),
      g.loop.ready = front.map JoinJob.turn ++ rest ∧
      ∀ i < scripts.length, own i g.events = [] → i ∈ front

/-- Turns come first among what is due. -/
def TurnsFirst (loop : Loop JoinJob) : Prop :=
  loop.ready.Pairwise fun first second => first.turn? = none → second.turn? = none

/-- Jobs of a join make only ends to be heard of, or a waking, due; nobody gets a turn by them. -/
theorem ready_perform (join : Join (Nat × Milestone ε) φ α) (loop : Loop JoinJob)
    (hlaunch : job ≠ .launch) :
    ∃ added, (join.perform id loop job).2.1.ready = loop.ready ++ added ∧
      ∀ j ∈ added, j.turn? = none ∧ j ≠ .launch := by
  cases job with
  | launch => exact absurd rfl hlaunch
  | wake => exact ⟨[], by simp [Join.perform], by simp⟩
  | hear i =>
    simp only [Join.perform]
    split
    · exact ⟨[.wake], rfl, by simp [JoinJob.turn?]⟩
    · exact ⟨[], by simp, by simp⟩
  | turn i =>
    simp only [Join.perform]
    split
    · exact ⟨[], by simp [Loop.park], by simp⟩
    · exact ⟨[.hear i], rfl, by simp [JoinJob.turn?]⟩
    · exact ⟨[], by simp, by simp⟩

/-- The turn that is due first is the first of the turns in front, unless there are none. -/
theorem front_cases {front : List Nat} {rest jobs : List JoinJob}
    (h : job :: jobs = front.map JoinJob.turn ++ rest) :
    (∃ i front', front = i :: front' ∧ job = .turn i ∧ jobs = front'.map JoinJob.turn ++ rest) ∨
      front = [] := by
  cases front with
  | nil => exact .inr rfl
  | cons i front' =>
    obtain ⟨rfl, rfl⟩ := List.cons_eq_cons.mp h
    exact .inl ⟨i, front', rfl, rfl, rfl⟩

/-- Once somebody wakes everybody has started. -/
theorem Orderly.all_started (h : Orderly scripts g)
    (hnext : g.loop.next? = some (.wake, loop')) {i : Nat} (hi : i < scripts.length) :
    own i g.events ≠ [] := by
  obtain ⟨-, -, hready⟩ := Loop.waiting_next? hnext
  rcases h with ⟨hlaunch, -⟩ | ⟨-, front, rest, hfront, hin⟩
  · rw [hready] at hlaunch
    cases hlaunch
  · rcases front_cases (hready.symm.trans hfront) with ⟨_, _, _, hjob, _⟩ | rfl
    · cases hjob
    · exact fun hnil => absurd (hin i hi hnil) List.not_mem_nil

/-- The first turn of an item starts it. -/
theorem Watched.started_turn (h : Watched scripts g) (hnone : g.outcome = none) {i : Nat}
    (hnext : g.loop.next? = some (.turn i, loop')) : own i g.step.events ≠ [] := by
  obtain ⟨⟨m, hm, -⟩, -⟩ := h.stage.accounts.turn_running (Loop.load_pos_of_next? hnext)
  obtain ⟨s, hs, -⟩ := h.script hm
  obtain ⟨m', hm', hcourse⟩ := h.onCourse hnone hs
  obtain rfl := Option.some.inj (hm.symm.trans hm')
  obtain ⟨new, hevents, htags, -⟩ := h.step_new hnext
  have hnew : new = (Join.turnOf loop'.isOpen m).1 := by
    rw [step_join hnext (by simp) (by simp)] at hevents
    have := List.append_cancel_left hevents
    simp only [Join.perform, Join.turn_eq loop'.isOpen hm] at this
    exact this.symm
  have hown : own i new = new := List.filter_eq_self.mpr fun p hp => by
    have := htags p hp
    simpa [eq_comm] using this
  rw [hevents, own_append, hown, hnew]
  exact hcourse.started loop'.isOpen

/-- **Jobs keep to the order** while nobody wakes. -/
theorem Orderly.step (ho : Orderly scripts g) (h : Watched scripts g) (hnone : g.outcome = none)
    (hnext : g.loop.next? = some (job, loop')) (hwake : job ≠ .wake)
    (hlaunch : job = .launch → g.join.members ≠ []) : Orderly scripts g.step := by
  obtain ⟨hwaiting, -, hready⟩ := Loop.waiting_next? hnext
  obtain ⟨new, hevents, -⟩ := h.step_new hnext
  rcases ho with ⟨hfirst, hnowait⟩ | ⟨hnolaunch, front, rest, hfront, hin⟩
  · -- The launch gives everybody a turn.
    rw [hready] at hfirst
    obtain ⟨rfl, hnil⟩ := List.cons_eq_cons.mp hfirst
    rw [step_join hnext hwake hlaunch]
    refine .inr ⟨by simp [Join.perform, Loop.postAll, hnil], List.range scripts.length, [], ?_,
      fun i hi _ => List.mem_range.mpr hi⟩
    simp [Join.perform, Loop.postAll, hnil, h.length_eq]
  · have hjob : job ≠ .launch := by
      rintro rfl
      exact hnolaunch (by simp [hready])
    obtain ⟨added, hadded, hquiet⟩ := ready_perform g.join loop' hjob
    have hready' : g.step.loop.ready = loop'.ready ++ added := by
      rw [step_join hnext hwake hlaunch]
      exact hadded
    have hbefore : ∀ i, own i g.step.events = [] → own i g.events = [] := by
      intro i hnil
      rw [hevents, own_append] at hnil
      exact (List.append_eq_nil_iff.mp hnil).1
    refine .inr ⟨?_, ?_⟩
    · rw [hready', List.mem_append]
      rintro (hmem | hmem)
      · exact hnolaunch (by simp [hready, hmem])
      · exact (hquiet _ hmem).2 rfl
    · rcases front_cases (hready.symm.trans hfront) with ⟨i, front', rfl, rfl, hjobs⟩ | rfl
      · refine ⟨front', rest ++ added, by rw [hready', hjobs, List.append_assoc],
          fun k hk hnil => ?_⟩
        rcases List.mem_cons.mp (hin k hk (hbefore k hnil)) with rfl | hmem
        · exact absurd hnil (h.started_turn hnone hnext)
        · exact hmem
      · exact ⟨[], loop'.ready ++ added, hready', fun k hk hnil =>
          absurd (hin k hk (hbefore k hnil)) List.not_mem_nil⟩

theorem Orderly.release (ho : Orderly scripts g) (h : Watched scripts g) (gate : Gate) :
    Orderly scripts (g.release gate) := by
  rcases ho with ⟨hfirst, hnowait⟩ | ⟨hnolaunch, front, rest, hfront, hin⟩
  · exact .inl ⟨by simp [Gathering.release, Loop.release, hfirst, hnowait],
      by simp [Gathering.release, Loop.release, hnowait]⟩
  · refine .inr ⟨?_, front, rest ++ (g.loop.waiting.filter (·.1 == gate)).map (·.2), ?_, hin⟩
    · change .launch ∉ g.loop.ready ++ _
      rw [List.mem_append]
      rintro (hmem | hmem)
      · exact hnolaunch hmem
      · obtain ⟨p, hp, hjob⟩ := List.mem_map.mp hmem
        obtain ⟨-, i, _, _, hi, -⟩ :=
          h.stage.accounts.waiting p.1 p.2 (List.mem_of_mem_filter hp)
        cases hjob.symm.trans hi
    · change g.loop.ready ++ _ = _
      rw [hfront, List.append_assoc]

theorem TurnsFirst.step (ho : Orderly scripts g) (ht : TurnsFirst g.loop)
    (hnext : g.loop.next? = some (job, loop')) (hwake : job ≠ .wake)
    (hlaunch : job = .launch → g.join.members ≠ []) : TurnsFirst g.step.loop := by
  obtain ⟨-, -, hready⟩ := Loop.waiting_next? hnext
  have hrest : loop'.ready.Pairwise fun first second =>
      JoinJob.turn? first = none → second.turn? = none := by
    unfold TurnsFirst at ht
    rw [hready] at ht
    exact ht.of_cons
  rw [step_join hnext hwake hlaunch]
  by_cases hjob : job = .launch
  · subst hjob
    have hnil : loop'.ready = [] := by
      rcases ho with ⟨hfirst, -⟩ | ⟨hnolaunch, -⟩
      · rw [hready] at hfirst
        exact (List.cons_eq_cons.mp hfirst).2
      · exact absurd (by simp [hready]) hnolaunch
    simp only [TurnsFirst, Join.perform, Loop.postAll, hnil, List.nil_append]
    exact List.pairwise_map.mpr (List.pairwise_of_forall fun i k hi => by cases hi)
  · obtain ⟨added, hadded, hquiet⟩ := ready_perform g.join loop' hjob
    simp only [TurnsFirst, hadded]
    refine List.pairwise_append.mpr ⟨hrest, ?_, fun _ _ j hj _ => (hquiet j hj).1⟩
    exact List.Pairwise.imp_of_mem (fun _ hj _ _ => (hquiet _ hj).1)
      (List.pairwise_of_forall fun _ _ => trivial)

theorem turnsFirst_release (h : Watched scripts g) (gate : Gate) (hidle : g.loop.idle = true) :
    TurnsFirst (g.loop.release gate) := by
  have hnil : g.loop.ready = [] := by simpa [Loop.idle] using hidle
  simp only [TurnsFirst, Loop.release, hnil, List.nil_append]
  refine List.Pairwise.imp_of_mem (fun hfirst _ _ hnone => ?_)
    (List.pairwise_of_forall fun _ _ => trivial)
  obtain ⟨p, hp, rfl⟩ := List.mem_map.mp hfirst
  obtain ⟨-, i, _, _, hi, -⟩ := h.stage.accounts.waiting p.1 p.2 (List.mem_of_mem_filter hp)
  rw [hi] at hnone
  cases hnone

/-! ## Who is to blame -/

/-- The failure that a gathering is bound to end with is that of the item that failed first. -/
def Blamed (scripts : List (Script ε φ α)) (g : Gathering (Nat × Milestone ε) φ α)
    (failure : Ending φ Empty) : Prop :=
  ∃ i s, firstFailure g.events = some i ∧ scripts[i]? = some s ∧
    s.ending.failure? = some failure

theorem Watched.firstFailure_none (h : Watched scripts g) (hnone : g.outcome = none)
    (hf : Join.failing g.loop g.join = none) : firstFailure g.events = none := by
  refine firstFailure_eq_none.mpr fun i hi => ?_
  obtain ⟨e, hm, he⟩ := h.ended_of_failed hnone hi
  exact he (h.stage.accounts.failing_none (h.stage.running hnone).sound hf hm)

/-- **Jobs leave the blame where it is**, or put it on who fails first. -/
theorem Watched.blamed_step (h : Watched scripts g) (hnone : g.outcome = none)
    (hb : ∀ failure, Join.failing g.loop g.join = some failure → Blamed scripts g failure)
    (hnext : g.loop.next? = some (job, loop')) (hwake : job ≠ .wake)
    (hlaunch : job = .launch → g.join.members ≠ [])
    (hf : Join.failing g.step.loop g.step.join = some failure) : Blamed scripts g.step failure := by
  obtain ⟨new, hevents, htags, h'⟩ := h.step_new hnext
  have hstep := step_join hnext hwake hlaunch
  have hnone' : g.step.outcome = none := by rw [hstep]; exact hnone
  cases hbefore : Join.failing g.loop g.join with
  | some first =>
    have hstays := h.stage.accounts.failing_perform hnext hbefore
    rw [hstep] at hf
    obtain rfl := Option.some.inj (hstays.symm.trans hf)
    obtain ⟨i, s, hfirst, hs, hfail⟩ := hb first hbefore
    exact ⟨i, s, by rw [hevents]; exact firstFailure_append_of_some hfirst, hs, hfail⟩
  | none =>
    have hunfailed := h.firstFailure_none hnone hbefore
    obtain ⟨i, e, hm, he⟩ :=
      h'.stage.accounts.failing_some (h'.stage.running hnone').sound hf
    obtain ⟨hfailed, s, hs, rfl⟩ := h'.failed_of_ended hnone' hm (by rw [he]; simp)
    refine ⟨i, s, ?_, hs, he⟩
    rw [hevents] at hfailed ⊢
    -- The failure is one of the records of this turn, all of which are of one member.
    have hnew : (i, .failed) ∈ new :=
      (List.mem_append.mp hfailed).resolve_left (firstFailure_eq_none.mp hunfailed i)
    rw [firstFailure_append_of_none hunfailed]
    cases hfirst : firstFailure new with
    | none => exact absurd hnew (firstFailure_eq_none.mp hfirst i)
    | some k =>
      have hk := htags _ (mem_of_firstFailure hfirst)
      have hi := htags _ hnew
      rw [hk] at hi
      cases hi
      rfl

/-! ## As long as there is no outcome -/

/-- Once known the outcome stays. -/
theorem Watched.known_move (h : Watched scripts g) (he : g.outcome = some e) (m : Move) :
    (g.move m).outcome = some e := by
  cases m with
  | release gate => exact he
  | tick =>
    change g.step.outcome = some e
    cases hnext : g.loop.next? with
    | none =>
      rw [step_of_idle hnext]
      exact he
    | some p =>
      rcases h.stage.step_cases hnext with ⟨-, -, hstep⟩ | ⟨hnone, -⟩ | ⟨_, hnone, -⟩ |
        ⟨_, _, hnone, -⟩
      · rw [hstep]
        exact he
      · cases hnone.symm.trans he
      · cases hnone.symm.trans he
      · cases hnone.symm.trans he

/-- What is known as long as there is no outcome. -/
structure Going (scripts : List (Script ε φ α)) (patient : Prop)
    (g : Gathering (Nat × Milestone ε) φ α) : Prop where
  orderly : Orderly scripts g
  turnsFirst : patient → TurnsFirst g.loop
  blamed : ∀ failure, Join.failing g.loop g.join = some failure → Blamed scripts g failure

theorem going_after (scripts : List (Script ε φ α)) (moves : List Move)
    (hnone : ((watching scripts).after moves).outcome = none) :
    Going scripts (Patient (watching scripts) moves) ((watching scripts).after moves) := by
  induction moves using List.reverseRecOn with
  | nil =>
    refine ⟨.inl ⟨rfl, rfl⟩, fun _ => List.pairwise_singleton _ _, fun failure hf => ?_⟩
    cases hf
  | append_singleton moves m ih =>
    have h := watched_after scripts moves
    rw [after_concat] at hnone ⊢
    have hbefore : ((watching scripts).after moves).outcome = none := by
      cases hknown : ((watching scripts).after moves).outcome with
      | none => rfl
      | some e => cases hnone.symm.trans (h.known_move hknown m)
    have hgoing := ih hbefore
    cases m with
    | release gate =>
      refine ⟨hgoing.orderly.release h gate,
        fun hpatient => turnsFirst_release h gate hpatient.idle,
        fun failure hf => hgoing.blamed failure ?_⟩
      exact (h.stage.accounts.failing_release gate).symm.trans hf
    | tick =>
      simp only [move] at hnone ⊢
      cases hnext : ((watching scripts).after moves).loop.next? with
      | none =>
        rw [step_of_idle hnext]
        exact ⟨hgoing.orderly, fun hpatient => hgoing.turnsFirst hpatient.init, hgoing.blamed⟩
      | some p =>
        rcases h.stage.step_cases hnext with ⟨hwake, hlaunch, -⟩ | ⟨-, -, -, hstep⟩ |
          ⟨_, -, -, -, -, hstep⟩ | ⟨_, _, -, -, -, -, -, hstep⟩
        · exact ⟨hgoing.orderly.step h hbefore hnext hwake hlaunch,
            fun hpatient =>
              (hgoing.turnsFirst hpatient.init).step hgoing.orderly hnext hwake hlaunch,
            fun failure hf => h.blamed_step hbefore hgoing.blamed hnext hwake hlaunch hf⟩
        · rw [hstep] at hnone
          cases hnone
        · rw [hstep] at hnone
          cases hnone
        · rw [hstep] at hnone
          cases hnone

end Gathering

end DepGraph
