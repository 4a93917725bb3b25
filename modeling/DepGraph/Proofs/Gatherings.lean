import Mathlib.Algebra.GroupWithZero.Nat
import Mathlib.Data.List.Basic
import Mathlib.Data.List.Perm.Subperm
import DepGraph.Schedule.Gathering
import DepGraph.Proofs.Course

/-!
# The course of a gathering

A gathering is driven from outside: the job that is due first is carried out, or a gate is opened,
in any order.

* `Gathering.Move`, `Gathering.after` — what is done to a gathering, and what comes of it.
* `Gathering.Stage` — its members are under way, or its outcome is known and nobody goes on.
* `Gathering.Stage.step`, `Gathering.Stage.release` — every move keeps to that, so that
  `Gathering.stage_after` holds of every course of moves.
* `Gathering.labour` — what is left to do while no gate is opened; each job makes it less.
* `Gathering.settle_spec` — carrying out jobs comes to a state in which none is due.
-/

set_option autoImplicit false

namespace DepGraph

variable {ε φ α : Type}

/-- The member that a job gives a turn to. -/
def JoinJob.turn? : JoinJob → Option Nat
  | .turn i => some i
  | _ => none

namespace Gathering

/-- What can be done to a gathering from outside. -/
inductive Move where
  /-- The job that is due first is carried out. -/
  | tick
  | release (gate : Gate)
  deriving DecidableEq, Repr

def move (g : Gathering ε φ α) : Move → Gathering ε φ α
  | .tick => g.step
  | .release gate => g.release gate

/-- A gathering after several moves. -/
def after (g : Gathering ε φ α) (moves : List Move) : Gathering ε φ α := moves.foldl move g

/-- Gates are opened only while nothing is due. -/
def Patient (g : Gathering ε φ α) (moves : List Move) : Prop :=
  ∀ before gate rest, moves = before ++ .release gate :: rest → (g.after before).loop.idle = true

variable {g : Gathering ε φ α} {moves : List Move} {scripts : List (Script ε φ α)}
  {events : Nat → List ε} {job : JoinJob} {loop' : Loop JoinJob}

@[simp] theorem after_nil (g : Gathering ε φ α) : g.after [] = g := rfl

theorem after_append (g : Gathering ε φ α) (before rest : List Move) :
    g.after (before ++ rest) = (g.after before).after rest :=
  List.foldl_append

theorem after_concat (g : Gathering ε φ α) (moves : List Move) (m : Move) :
    g.after (moves ++ [m]) = (g.after moves).move m :=
  after_append g moves [m]

theorem Patient.init {m : Move} (h : Patient g (moves ++ [m])) : Patient g moves := by
  intro before gate rest heq
  exact h before gate (rest ++ [m]) (by rw [heq]; simp)

theorem Patient.idle {gate : Gate} (h : Patient g (moves ++ [.release gate])) :
    (g.after moves).loop.idle = true :=
  h moves gate [] rfl

/-! ## One job -/

theorem step_eq (h : g.loop.next? = some (job, loop')) :
    g.step = { g with loop := loop' }.perform job := by
  simp [step, h]

theorem step_of_idle (h : g.loop.next? = none) : g.step = g := by
  simp [step, h]

/-- Unless the gathering itself acts, a job is one of its join. -/
theorem step_join (h : g.loop.next? = some (job, loop')) (hwake : job ≠ .wake)
    (hlaunch : job = .launch → g.join.members ≠ []) :
    g.step = { g with
      loop := (g.join.perform id loop' job).2.1
      join := (g.join.perform id loop' job).2.2
      events := g.events ++ (g.join.perform id loop' job).1 } := by
  rw [step_eq h]
  cases job with
  | wake => exact absurd rfl hwake
  | launch => simp [perform, hlaunch rfl]
  | turn i => rfl
  | hear i => rfl

theorem step_launch_nil (h : g.loop.next? = some (.launch, loop')) (hnil : g.join.members = []) :
    g.step = { g with loop := loop', outcome := some (.returned []) } := by
  rw [step_eq h]
  simp [perform, hnil]

theorem step_wake_returned (h : g.loop.next? = some (.wake, loop')) {values : List α}
    (hv : g.join.tally.verdict = some (.returned values)) :
    g.step = { g with loop := loop', outcome := some (.returned values) } := by
  rw [step_eq h]
  simp [perform, hv]

theorem step_wake_failed (h : g.loop.next? = some (.wake, loop')) {e : Ending φ (List α)}
    (hv : g.join.tally.verdict = some e) {failure : Ending φ Empty}
    (hf : e.failure? = some failure) :
    g.step = { g with
      loop := (g.join.abandon id loop').1
      join := (g.join.abandon id loop').2
      outcome := some e } := by
  rw [step_eq h]
  cases e with
  | returned values => cases hf
  | raised f => simp [perform, hv]
  | cancelled => simp [perform, hv]

/-! ## Stages -/

/-- Where a gathering of `scripts` stands, of each of which some `events` were recorded. -/
inductive Stage (scripts : List (Script ε φ α)) (events : Nat → List ε) (g : Gathering ε φ α) : Prop
  /-- The members go their own ways. -/
  | underway (unknown : g.outcome = none) (running : Join.Running scripts events g.loop g.join)
  /-- The outcome is known, and nobody goes on. -/
  | closed (e : Ending φ (List α)) (known : g.outcome = some e)
    (finished : Join.Over scripts events g.loop g.join) (resting : g.join.Resting)
    (verdict : g.join.tally.verdict = some e ∨
      g.join.members = [] ∧ g.join.tally.verdict = none ∧ e = .returned [])

theorem stage_ofScripts (scripts : List (Script ε φ α)) :
    Stage scripts (fun _ => []) (ofScripts scripts) :=
  .underway rfl (Join.running_ofScripts scripts [])

theorem Stage.accounts (h : Stage scripts events g) : Join.Accounts g.loop g.join := by
  cases h with
  | underway _ running => exact running.accounts
  | closed e _ finished _ _ => exact finished.accounts

theorem Stage.follows (h : Stage scripts events g) :
    Join.Along Member.Follows scripts events g.join := by
  cases h with
  | underway _ running => exact running.along.mono fun _ _ _ => .inl
  | closed e _ finished _ _ => exact finished.along

theorem Stage.running (h : Stage scripts events g) (hnone : g.outcome = none) :
    Join.Running scripts events g.loop g.join := by
  cases h with
  | underway _ running => exact running
  | closed e known _ _ _ => cases hnone.symm.trans known

theorem Stage.finished (h : Stage scripts events g) {e : Ending φ (List α)}
    (he : g.outcome = some e) :
    Join.Over scripts events g.loop g.join ∧ g.join.Resting ∧
      (g.join.tally.verdict = some e ∨
        g.join.members = [] ∧ g.join.tally.verdict = none ∧ e = .returned []) := by
  cases h with
  | underway unknown _ => cases unknown.symm.trans he
  | closed e' known finished resting verdict =>
    obtain rfl := Option.some.inj (known.symm.trans he)
    exact ⟨finished, resting, verdict⟩

theorem noted_of_ne {new : List ε} (h : ∀ i, job ≠ .turn i) :
    Join.noted job new events = events :=
  funext fun i => if_neg (h i)

/-- **What the next job can be**: one of the join, or the one with which the outcome becomes known,
because there is nothing to wait for, or all have returned, or somebody has failed. -/
theorem Stage.step_cases (h : Stage scripts events g) (hnext : g.loop.next? = some (job, loop')) :
    (job ≠ .wake ∧ (job = .launch → g.join.members ≠ []) ∧ g.step = { g with
      loop := (g.join.perform id loop' job).2.1
      join := (g.join.perform id loop' job).2.2
      events := g.events ++ (g.join.perform id loop' job).1 }) ∨
    (g.outcome = none ∧ job = .launch ∧ g.join.members = [] ∧
      g.step = { g with loop := loop', outcome := some (.returned []) }) ∨
    (∃ values, g.outcome = none ∧ job = .wake ∧ g.join.members ≠ [] ∧
      g.join.tally.verdict = some (.returned values) ∧
      g.step = { g with loop := loop', outcome := some (.returned values) }) ∨
    ∃ e failure, g.outcome = none ∧ job = .wake ∧ g.join.members ≠ [] ∧
      g.join.tally.verdict = some e ∧ e.failure? = some failure ∧
      g.step = { g with
        loop := (g.join.abandon id loop').1
        join := (g.join.abandon id loop').2
        outcome := some e } := by
  have hpos := Loop.load_pos_of_next? hnext
  cases h with
  | closed e known finished resting verdict =>
    have hwake : job ≠ .wake := by
      rintro rfl
      exact absurd finished.wake hpos.ne'
    have hlaunch : job ≠ .launch := by
      rintro rfl
      exact absurd finished.launch hpos.ne'
    exact .inl ⟨hwake, (absurd · hlaunch), step_join hnext hwake (absurd · hlaunch)⟩
  | underway unknown running =>
    by_cases hwake : job = .wake
    · subst hwake
      rw [running.wake] at hpos
      obtain ⟨e, he⟩ : ∃ e, g.join.tally.verdict = some e := by
        cases hv : g.join.tally.verdict with
        | none => simp [hv] at hpos
        | some e => exact ⟨e, rfl⟩
      have hne : g.join.members ≠ [] := by
        intro hnil
        cases he.symm.trans (running.launch hnil).2
      cases hf : e.failure? with
      | none =>
        obtain ⟨values, rfl⟩ := Ending.failure?_eq_none.mp hf
        exact .inr (.inr (.inl ⟨values, unknown, rfl, hne, he, step_wake_returned hnext he⟩))
      | some failure =>
        exact .inr (.inr (.inr
          ⟨e, failure, unknown, rfl, hne, he, hf, step_wake_failed hnext he hf⟩))
    · by_cases hlaunch : job = .launch ∧ g.join.members = []
      · obtain ⟨rfl, hnil⟩ := hlaunch
        exact .inr (.inl ⟨unknown, rfl, hnil, step_launch_nil hnext hnil⟩)
      · have hne : job = .launch → g.join.members ≠ [] := fun hl hnil => hlaunch ⟨hl, hnil⟩
        exact .inl ⟨hwake, hne, step_join hnext hwake hne⟩

/-- **A job keeps a gathering to its stages.** -/
theorem Stage.step (h : Stage scripts events g) (hnext : g.loop.next? = some (job, loop')) :
    ∃ new, g.step.events = g.events ++ new ∧ ((∃ i, job = .turn i) ∨ new = []) ∧
      Stage scripts (Join.noted job new events) g.step := by
  rcases h.step_cases hnext with ⟨hwake, hlaunch, hstep⟩ | ⟨hnone, rfl, hnil, hstep⟩ |
    ⟨values, hnone, rfl, hne, hv, hstep⟩ | ⟨e, failure, hnone, rfl, hne, hv, hf, hstep⟩
  · rw [hstep]
    refine ⟨_, rfl, ?_, ?_⟩
    · cases job with
      | turn i => exact .inl ⟨i, rfl⟩
      | hear i => exact .inr rfl
      | launch => exact .inr rfl
      | wake => exact .inr rfl
    · cases h with
      | underway unknown running => exact .underway unknown (running.perform hnext hwake hlaunch)
      | closed e known finished resting verdict =>
        obtain ⟨hover, hverdict⟩ := finished.perform hnext
        refine .closed e known hover (resting.perform loop' job) (verdict.imp (hverdict.trans ·) ?_)
        rintro ⟨hnil, hv, he⟩
        have hlength := hover.along.length
        rw [← finished.along.length, hnil] at hlength
        exact ⟨List.length_eq_zero_iff.mp hlength, hverdict.trans hv, he⟩
  · have hrunning := h.running hnone
    rw [hstep]
    refine ⟨[], (List.append_nil _).symm, .inr rfl, ?_⟩
    rw [noted_of_ne (by simp)]
    exact .closed _ rfl (hrunning.nothing hnext hnil) (Join.resting_nil hnil)
      (.inr ⟨hnil, (hrunning.launch hnil).2, rfl⟩)
  · have hrunning := h.running hnone
    rw [hstep]
    refine ⟨[], (List.append_nil _).symm, .inr rfl, ?_⟩
    rw [noted_of_ne (by simp)]
    exact .closed _ rfl (hrunning.finish hnext hv hne)
      (Join.resting_of_returned hrunning.accounts hrunning.sound hv) (.inl hv)
  · rw [hstep]
    refine ⟨[], (List.append_nil _).symm, .inr rfl, ?_⟩
    rw [noted_of_ne (by simp)]
    exact .closed e rfl ((h.running hnone).giveUp hnext hv hne) (Join.resting_stop _) (.inl hv)

theorem Stage.release (h : Stage scripts events g) (gate : Gate) :
    Stage scripts events (g.release gate) := by
  cases h with
  | underway unknown running => exact .underway unknown (running.release gate)
  | closed e known finished resting verdict =>
    exact .closed e known (finished.release gate) resting verdict

/-- **Whatever the moves**, a gathering keeps to its stages. -/
theorem stage_after (scripts : List (Script ε φ α)) (moves : List Move) :
    ∃ events, Stage scripts events ((ofScripts scripts).after moves) := by
  induction moves using List.reverseRecOn with
  | nil => exact ⟨_, stage_ofScripts scripts⟩
  | append_singleton moves m ih =>
    obtain ⟨events, h⟩ := ih
    rw [after_concat]
    cases m with
    | release gate => exact ⟨events, h.release gate⟩
    | tick =>
      simp only [move]
      cases hnext : ((ofScripts scripts).after moves).loop.next? with
      | none => exact ⟨events, (step_of_idle hnext).symm ▸ h⟩
      | some p =>
        obtain ⟨new, -, -, hstage⟩ := h.step hnext
        exact ⟨_, hstage⟩

/-! ## Coming to rest -/

/-- The most that a job can still lead to: a turn may have to be taken again as cancelled, and its
end is to be heard of. -/
def weight (members : List (Member ε φ α)) : JoinJob → Nat
  | .launch => 3 * members.length + 1
  | .turn i => if (members[i]?.map Member.isActive).getD false then 3 else 2
  | .hear _ => 1
  | .wake => 1

/-- A verdict that is still to come will be followed by a waking. -/
def unsettled (tally : Tally φ α) : Nat := if tally.verdict.isSome then 0 else 1

/-- What is left to do while no gate is opened. -/
def labour (g : Gathering ε φ α) : Nat :=
  (g.loop.ready.map (weight g.join.members)).sum + 2 * g.loop.waiting.length +
    unsettled g.join.tally

theorem weight_pos (members : List (Member ε φ α)) (job : JoinJob) : 1 ≤ weight members job := by
  cases job with
  | turn i =>
    simp only [weight]
    split <;> decide
  | launch => simp [weight]
  | hear i => exact Nat.le_refl 1
  | wake => exact Nat.le_refl 1

theorem weight_turn_le (members : List (Member ε φ α)) (i : Nat) :
    2 ≤ weight members (.turn i) ∧ weight members (.turn i) ≤ 3 := by
  simp only [weight]
  split <;> decide

/-- Members that no longer go on have less to do. -/
theorem weight_mono {members members' : List (Member ε φ α)}
    (hlength : members'.length = members.length)
    (hactive : ∀ i : Nat, (members'[i]?.map Member.isActive).getD false = true →
      (members[i]?.map Member.isActive).getD false = true) (job : JoinJob) :
    weight members' job ≤ weight members job := by
  cases job with
  | launch => simp [weight, hlength]
  | hear i => exact Nat.le_refl 1
  | wake => exact Nat.le_refl 1
  | turn i =>
    simp only [weight]
    split
    · rename_i h
      rw [if_pos (hactive i h)]
    · split <;> decide

theorem sum_weight_mono {weight weight' : JoinJob → Nat} (h : ∀ job, weight' job ≤ weight job)
    (jobs : List JoinJob) : (jobs.map weight').sum ≤ (jobs.map weight).sum :=
  List.sum_le_sum fun job _ => h job

/-- Turns made due at once are no more than the waits that they were. -/
theorem sum_withdrawAll {weight : JoinJob → Nat} (h : ∀ i, weight (.turn i) ≤ 2)
    (loop : Loop JoinJob) (is : List Nat) :
    ((loop.withdrawAll (is.map fun i => .turn i)).ready.map weight).sum +
        2 * (loop.withdrawAll (is.map fun i => .turn i)).waiting.length ≤
      (loop.ready.map weight).sum + 2 * loop.waiting.length := by
  induction is generalizing loop with
  | nil => exact Nat.le_refl _
  | cons i is ih =>
    refine (ih (loop.withdraw (.turn i))).trans ?_
    unfold Loop.withdraw
    split
    · rename_i hany
      obtain ⟨p, hp, hi⟩ := List.any_eq_true.mp hany
      have hless : (loop.waiting.filter fun q => q.2 ≠ .turn i).length < loop.waiting.length :=
        List.length_filter_lt_length_iff_exists.mpr ⟨p, hp, by simpa using hi⟩
      have := h i
      simp only [List.map_append, List.sum_append, List.map_cons, List.map_nil, List.sum_cons,
        List.sum_nil]
      omega
    · exact Nat.le_refl _

/-- Nobody goes on, so that there is not more than to end. -/
theorem weight_resting {join : Join ε φ α} (h : join.Resting) (i : Nat) :
    weight join.members (.turn i) = 2 := by
  refine if_neg fun hactive => ?_
  cases hm : join.members[i]? with
  | none => simp [hm] at hactive
  | some m =>
    cases m with
    | active farewell rest => exact h i farewell rest hm
    | stopped farewell => simp [hm, Member.isActive] at hactive
    | ended e => simp [hm, Member.isActive] at hactive

theorem weight_stop (join : Join ε φ α) (job : JoinJob) :
    weight join.stop.members job ≤ weight join.members job := by
  have hlength : join.stop.members.length = join.members.length := by simp [Join.stop]
  refine weight_mono hlength (fun i hi => ?_) job
  have hrest := weight_resting (Join.resting_stop join) i
  simp only [weight, hi, if_true] at hrest
  omega

theorem weight_set {members : List (Member ε φ α)} {i : Nat} {m : Member ε φ α}
    (hm : members[i]? = some m) (m' : Member ε φ α)
    (hactive : m'.isActive = true → m.isActive = true) (job : JoinJob) :
    weight (members.set i m') job ≤ weight members job := by
  have hlength : (members.set i m').length = members.length := List.length_set
  refine weight_mono hlength (fun k hk => ?_) job
  by_cases hik : i = k
  · subst hik
    rw [List.getElem?_set_self (List.getElem?_eq_some_iff.mp hm).1] at hk
    rw [hm]
    exact hactive hk
  · rwa [List.getElem?_set_ne hik] at hk

/-- A turn leads to less than it stood for: to a wait at a gate, or to an end to be heard of. -/
theorem labour_turn (loop' : Loop JoinJob) {i : Nat} {m : Member ε φ α}
    (hm : g.join.members[i]? = some m) (hrunning : m.ending? = none) :
    let after := g.join.perform id loop' (.turn i)
    (after.2.1.ready.map (weight after.2.2.members)).sum + 2 * after.2.1.waiting.length <
        weight g.join.members (.turn i) + (loop'.ready.map (weight g.join.members)).sum +
          2 * loop'.waiting.length ∧
      after.2.2.tally = g.join.tally := by
  have htwo := (weight_turn_le g.join.members i).1
  rcases Join.turnOf_spec loop'.isOpen hrunning none with
    ⟨es, e, ht, -⟩ | ⟨es, gate, farewell, rest, ht, -, -⟩
  · rw [Join.perform_turn_over loop' hm ht]
    have hmono := sum_weight_mono
      (weight_set hm (.ended e) (by simp [Member.isActive])) loop'.ready
    have hhear : weight (g.join.members.set i (.ended e)) (.hear i) = 1 := rfl
    simp only [Loop.post, List.map_append, List.sum_append, List.map_cons, List.map_nil,
      List.sum_cons, List.sum_nil, hhear]
    exact ⟨by omega, trivial⟩
  · rw [Join.perform_turn_at loop' hm ht]
    -- Whoever comes to a gate went on by himself before.
    have hactive : m.isActive = true := by
      cases m with
      | active f r => rfl
      | stopped f => simp [Join.turnOf] at ht
      | ended e => cases hrunning
    have hthree : weight g.join.members (.turn i) = 3 := by simp [weight, hm, hactive]
    have hmono := sum_weight_mono
      (weight_set hm (.active farewell rest) fun _ => hactive) loop'.ready
    simp only [Loop.park, List.length_append, List.length_cons, List.length_nil]
    exact ⟨by omega, trivial⟩

/-- Hearing of an end leads to no more than a waking, and then there is a verdict. -/
theorem labour_hear (loop' : Loop JoinJob) {i : Nat} {e : Ending φ α}
    (hm : g.join.members[i]? = some (.ended e)) :
    { g with
      loop := (g.join.perform id loop' (.hear i)).2.1
      join := (g.join.perform id loop' (.hear i)).2.2 }.labour =
        { g with loop := loop' }.labour := by
  have hwake : weight g.join.members .wake = 1 := rfl
  rw [Join.perform_hear loop' hm]
  cases hv : g.join.tally.verdict with
  | some v =>
    have hwait : g.join.tally.decides i e = false := by simp [Tally.decides, hv]
    simp [labour, unsettled, hwait, Tally.hear_of_verdict hv, hv]
  | none =>
    cases hv' : (g.join.tally.hear i e).verdict with
    | none => simp [labour, unsettled, Tally.decides, hv, hv']
    | some v =>
      simp only [labour, unsettled, Tally.decides, hv, hv', Option.isNone_none, Option.isSome_some,
        Bool.and_true, if_true, Loop.post, List.map_append, List.sum_append, List.map_cons,
        List.map_nil, List.sum_cons, List.sum_nil, hwake, Option.isSome_none, Bool.false_eq_true,
        if_false]
      omega

/-- **Every job makes what is left to do less.** -/
theorem labour_step (h : Stage scripts events g) (hnext : g.loop.next? = some (job, loop')) :
    g.step.labour < g.labour := by
  obtain ⟨hwaiting, -, hready⟩ := Loop.waiting_next? hnext
  have hpos := Loop.load_pos_of_next? hnext
  have hone := weight_pos g.join.members job
  have hbefore : g.labour = weight g.join.members job + { g with loop := loop' }.labour := by
    simp only [labour, hready, hwaiting, List.map_cons, List.sum_cons]
    omega
  rcases h.step_cases hnext with ⟨hwake, hlaunch, hstep⟩ | ⟨-, rfl, -, hstep⟩ |
    ⟨values, -, rfl, -, hv, hstep⟩ | ⟨e, failure, -, rfl, -, hv, hf, hstep⟩
  · rw [hstep]
    cases job with
    | wake => exact absurd rfl hwake
    | launch =>
      have hturns : (((List.range g.join.members.length).map fun i => JoinJob.turn i).map
          (weight g.join.members)).sum ≤ 3 * g.join.members.length := by
        rw [List.map_map]
        refine (List.sum_le_card_nsmul _ 3 fun w hw => ?_).trans (by simp [Nat.mul_comm])
        obtain ⟨i, -, rfl⟩ := List.mem_map.mp hw
        exact (weight_turn_le _ i).2
      rw [hbefore]
      simp only [labour, Join.perform, Loop.postAll, id_eq, List.map_append, List.sum_append,
        weight]
      omega
    | turn i =>
      obtain ⟨⟨m, hm, hrunning⟩, -⟩ := h.accounts.turn_running hpos
      obtain ⟨hless, htally⟩ := labour_turn loop' hm hrunning
      rw [hbefore]
      simp only [labour, htally]
      omega
    | hear i =>
      obtain ⟨e, hm, -⟩ := h.accounts.hear_ended hpos
      have hheard := labour_hear loop' hm
      rw [hbefore, ← hheard]
      simp only [labour]
      omega
  · rw [hstep, hbefore]
    simp only [labour]
    omega
  · rw [hstep, hbefore]
    simp only [labour]
    omega
  · have hsum := sum_withdrawAll (fun i => (weight_resting (Join.resting_stop g.join) i).le) loop'
      g.join.active
    have hmono := sum_weight_mono (weight_stop g.join) loop'.ready
    have hverdict : g.join.stop.tally = g.join.tally := rfl
    rw [hstep, hbefore]
    simp only [labour, Join.abandon, hverdict, id_eq]
    omega

/-! ## Enough jobs -/

/-- Jobs are carried out until none is due, if there is little enough left to do. -/
theorem idle_run (n : Nat) (h : ∃ events, Stage scripts events g) (hn : g.labour ≤ n) :
    (g.run n).loop.idle = true ∧ ∃ ticks, g.run n = g.after (List.replicate ticks .tick) := by
  induction n generalizing g with
  | zero =>
    refine ⟨?_, 0, rfl⟩
    cases hready : g.loop.ready with
    | nil => simp [run, Loop.idle, hready]
    | cons job rest =>
      have := weight_pos g.join.members job
      simp only [labour, hready, List.map_cons, List.sum_cons] at hn
      omega
  | succ n ih =>
    obtain ⟨events, hstage⟩ := h
    unfold run
    split
    · rename_i hidle
      exact ⟨hidle, 0, rfl⟩
    · rename_i hbusy
      cases hnext : g.loop.next? with
      | none =>
        unfold Loop.next? at hnext
        split at hnext
        · rename_i hready
          simp [Loop.idle, hready] at hbusy
        · cases hnext
      | some p =>
        obtain ⟨new, -, -, hstage'⟩ := hstage.step hnext
        have hless := labour_step hstage hnext
        obtain ⟨hidle, ticks, hticks⟩ := ih ⟨_, hstage'⟩ (by omega)
        exact ⟨hidle, ticks + 1, hticks⟩

theorem mem_turns {jobs : List JoinJob} {i : Nat} :
    i ∈ jobs.filterMap JoinJob.turn? ↔ .turn i ∈ jobs := by
  rw [List.mem_filterMap]
  constructor
  · rintro ⟨job, hjob, hi⟩
    cases job <;> cases hi
    exact hjob
  · exact fun h => ⟨_, h, rfl⟩

theorem count_turns (jobs : List JoinJob) (i : Nat) :
    (jobs.filterMap JoinJob.turn?).count i = jobs.count (.turn i) := by
  induction jobs with
  | nil => rfl
  | cons job jobs ih =>
    cases job with
    | turn k => simp [JoinJob.turn?, List.count_cons, ih]
    | launch => rw [List.filterMap_cons_none rfl, ih, List.count_cons_of_ne (by simp)]
    | hear k => rw [List.filterMap_cons_none rfl, ih, List.count_cons_of_ne (by simp)]
    | wake => rw [List.filterMap_cons_none rfl, ih, List.count_cons_of_ne (by simp)]

/-- Members have one turn each, due or waiting. -/
theorem turns_le (ha : Join.Accounts g.loop g.join) :
    (g.loop.ready.filterMap JoinJob.turn?).length + g.loop.waiting.length ≤
      g.join.members.length := by
  have hwaiting : ((g.loop.waiting.map (·.2)).filterMap JoinJob.turn?).length =
      g.loop.waiting.length := by
    rw [List.filterMap_length_eq_length.mpr]
    · simp
    · intro job hjob
      obtain ⟨p, hp, rfl⟩ := List.mem_map.mp hjob
      obtain ⟨-, i, _, _, hi, -⟩ := ha.waiting p.1 p.2 hp
      rw [hi]
      rfl
  have hcount : ∀ i, ((g.loop.ready ++ g.loop.waiting.map (·.2)).filterMap
      JoinJob.turn?).count i = g.loop.load (.turn i) := by
    intro i
    rw [count_turns, List.count_append]
    rfl
  have hone : ∀ i, 0 < g.loop.load (.turn i) →
      g.loop.load (.turn i) = 1 ∧ i < g.join.members.length := by
    intro i hi
    obtain ⟨⟨m, hm, -⟩, -, hload, -⟩ := ha.turn_running hi
    exact ⟨hload, (List.getElem?_eq_some_iff.mp hm).1⟩
  have hnodup : ((g.loop.ready ++ g.loop.waiting.map (·.2)).filterMap JoinJob.turn?).Nodup := by
    refine List.nodup_iff_count_le_one.mpr fun i => ?_
    rw [hcount]
    by_cases hi : 0 < g.loop.load (.turn i)
    · exact (hone i hi).1.le
    · omega
  have hsubset : (g.loop.ready ++ g.loop.waiting.map (·.2)).filterMap JoinJob.turn? ⊆
      List.range g.join.members.length := by
    intro i hi
    have hpos : 0 < g.loop.load (.turn i) := by
      rw [← hcount]
      exact List.count_pos_iff.mpr hi
    exact List.mem_range.mpr (hone i hpos).2
  have hle := (List.subperm_of_subset hnodup hsubset).length_le
  rw [List.filterMap_append, List.length_append, hwaiting, List.length_range] at hle
  exact hle

/-- Turns apart, a job leads to nothing else, as long as nobody is to be launched. -/
theorem sum_weight_le (members : List (Member ε φ α)) {jobs : List JoinJob}
    (h : .launch ∉ jobs) :
    (jobs.map (weight members)).sum ≤
      jobs.length + 2 * (jobs.filterMap JoinJob.turn?).length := by
  induction jobs with
  | nil => exact Nat.le_refl 0
  | cons job jobs ih =>
    have hrest := ih fun hmem => h (List.mem_cons_of_mem _ hmem)
    cases job with
    | launch => exact absurd List.mem_cons_self h
    | turn i =>
      have := (weight_turn_le members i).2
      simp only [List.map_cons, List.sum_cons, List.length_cons, List.filterMap_cons, JoinJob.turn?]
      omega
    | hear i =>
      have hw : weight members (.hear i) = 1 := rfl
      simp only [List.map_cons, List.sum_cons, List.length_cons, List.filterMap_cons, JoinJob.turn?,
        hw]
      omega
    | wake =>
      have hw : weight members .wake = 1 := rfl
      simp only [List.map_cons, List.sum_cons, List.length_cons, List.filterMap_cons, JoinJob.turn?,
        hw]
      omega

/-- There is no more left to do than is provided for. -/
theorem labour_le (ha : Join.Accounts g.loop g.join) : g.labour ≤ g.bound := by
  have hturns := turns_le ha
  have hverdict : unsettled g.join.tally ≤ 1 := by
    unfold unsettled
    split <;> decide
  by_cases hlaunch : .launch ∈ g.loop.ready
  · -- Nobody has a turn before the launch.
    obtain ⟨before, rest, hready⟩ := List.append_of_mem hlaunch
    have hone := ha.launch
    have hcount : g.loop.ready.count .launch ≤ 1 := by
      unfold Loop.load at hone
      omega
    rw [hready, List.count_append, List.count_cons_self] at hcount
    have hbefore := sum_weight_le g.join.members
      (List.count_eq_zero.mp (by omega : before.count .launch = 0))
    have hrest := sum_weight_le g.join.members
      (List.count_eq_zero.mp (by omega : rest.count .launch = 0))
    have hpos := Loop.load_pos_of_ready hlaunch
    have hnone : ∀ i, g.loop.load (.turn i) = 0 := by
      intro i
      by_contra hi
      obtain ⟨-, -, -, hzero, -⟩ := ha.turn_running (Nat.pos_of_ne_zero hi)
      omega
    have hturnless : g.loop.ready.filterMap JoinJob.turn? = [] := by
      refine List.eq_nil_iff_forall_not_mem.mpr fun i hi => ?_
      have := Loop.load_pos_of_ready (mem_turns.mp hi)
      have := hnone i
      omega
    have hwaitless : g.loop.waiting = [] := by
      refine List.eq_nil_iff_forall_not_mem.mpr fun p hp => ?_
      obtain ⟨-, i, _, _, hi, -⟩ := ha.waiting p.1 p.2 hp
      have hw : 0 < (g.loop.waiting.map (·.2)).count (.turn i) :=
        List.count_pos_iff.mpr (List.mem_map.mpr ⟨p, hp, hi⟩)
      have := hnone i
      unfold Loop.load at this
      omega
    rw [hready, List.filterMap_append, List.filterMap_cons] at hturnless
    obtain ⟨hb, hr⟩ := List.append_eq_nil_iff.mp hturnless
    have hr' : rest.filterMap JoinJob.turn? = [] := hr
    have hw : weight g.join.members .launch = 3 * g.join.members.length + 1 := rfl
    rw [hb] at hbefore
    rw [hr'] at hrest
    simp only [labour, bound, hready, hwaitless, List.map_append, List.sum_append, List.map_cons,
      List.sum_cons, List.length_append, List.length_cons, List.length_nil, hw] at *
    omega
  · have hsum := sum_weight_le g.join.members hlaunch
    simp only [labour, bound]
    omega

/-- **Settling settles**, whatever happened before. -/
theorem settle_spec (scripts : List (Script ε φ α)) (moves : List Move) :
    ((ofScripts scripts).after moves).settle.loop.idle = true ∧
      ∃ ticks, ((ofScripts scripts).after moves).settle =
        (ofScripts scripts).after (moves ++ List.replicate ticks .tick) := by
  obtain ⟨events, h⟩ := stage_after scripts moves
  obtain ⟨hidle, ticks, hticks⟩ := idle_run _ ⟨events, h⟩ (labour_le h.accounts)
  exact ⟨hidle, ticks, hticks.trans (after_append _ _ _).symm⟩

end Gathering

end DepGraph
