import DepGraph.Proofs.Watching

/-!
# All or nothing, for items that run together

A gathering returns the values of all its items in their order, or fails with the failure of the
item that failed first; then whatever is still held at a gate is cancelled, in the order of the
items, and nothing is left pending.

* `Gathering.handled` — a failure is dealt with in one move.
* `Gathering.Watched.closing` — what that move does.
* `Gathering.Watched.cancellations_step` — nobody else is cancelled later.
* `Gathering.gathers_or_fails` — the main result.
-/

set_option autoImplicit false

namespace DepGraph

namespace Gathering

variable {ε φ α : Type} {scripts : List (Script ε φ α)}
  {g : Gathering (Nat × Milestone ε) φ α} {job : JoinJob} {loop' : Loop JoinJob}
  {e : Ending φ (List α)} {failure : Ending φ Empty}

/-! ## A failure is dealt with -/

/-- Whether member `i` waits at a gate. -/
def waits (loop : Loop JoinJob) (i : Nat) : Bool :=
  loop.waiting.any fun p => decide (p.2 = .turn i)

/-- The turns that come to be due are those of the members that wait. -/
theorem filterMap_ready_withdrawAll (loop : Loop JoinJob) {is : List Nat} (h : is.Nodup) :
    (loop.withdrawAll (is.map fun i => .turn i)).ready.filterMap JoinJob.turn? =
      loop.ready.filterMap JoinJob.turn? ++ is.filter (waits loop) := by
  induction is generalizing loop with
  | nil => simp [Loop.withdrawAll]
  | cons first rest ih =>
    obtain ⟨hfirst, hrest⟩ := List.nodup_cons.mp h
    have hlater := ih (loop.withdraw (.turn first)) hrest
    have hcons : loop.withdrawAll ((first :: rest).map fun i => .turn i) =
        (loop.withdraw (.turn first)).withdrawAll (rest.map fun i => .turn i) := rfl
    rw [hcons, hlater]
    cases hwaits : waits loop first with
    | true =>
      have hwithdraw : loop.withdraw (.turn first) =
          { loop with
            ready := loop.ready ++ [.turn first]
            waiting := loop.waiting.filter (·.2 ≠ .turn first) } := if_pos hwaits
      -- Whoever waits besides is another member.
      have hother : rest.filter (waits (loop.withdraw (.turn first))) =
          rest.filter (waits loop) := by
        refine List.filter_congr fun i hi => ?_
        have hne : i ≠ first := fun heq => hfirst (heq ▸ hi)
        rw [hwithdraw]
        unfold waits
        rw [List.any_filter]
        congr 1
        funext p
        by_cases hp : p.2 = .turn i
        · simp [hp, hne]
        · simp [hp]
      rw [hother, hwithdraw, List.filter_cons_of_pos hwaits, List.filterMap_append]
      simp [JoinJob.turn?]
    | false =>
      have hsame : loop.withdraw (.turn first) = loop :=
        if_neg (fun h => Bool.false_ne_true (hwaits.symm.trans h))
      rw [hsame, List.filter_cons_of_neg (by simp [hwaits])]

theorem active_filter (ha : Join.Accounts g.loop g.join) :
    g.join.active.filter (waits g.loop) = g.held := by
  unfold Join.active held waits
  rw [List.filter_filter]
  refine List.filter_congr fun i _ => ?_
  rw [Bool.eq_iff_iff]
  simp only [Bool.and_eq_true, List.any_eq_true, decide_eq_true_eq, Bool.not_eq_true',
    Prod.exists, exists_eq_right]
  constructor
  · rintro ⟨⟨gate, hmem⟩, -⟩
    exact ⟨gate, _, hmem, rfl, (ha.waiting gate _ hmem).1⟩
  · rintro ⟨gate, _, hmem, rfl, -⟩
    obtain ⟨-, k, farewell, rest, hk, hm⟩ := ha.waiting gate _ hmem
    cases hk
    exact ⟨⟨gate, hmem⟩, by simp [hm, Member.isActive]⟩

namespace Watched

/-- **What dealing with a failure does**: whoever is held at a gate is to have a last turn, after
all that are due already. -/
theorem closing (h : Watched scripts g) (hnext : g.loop.next? = some (.wake, loop'))
    (hv : g.join.tally.verdict = some e) (hf : e.failure? = some failure) :
    g.step.events = g.events ∧ g.step.due = g.due ++ g.held := by
  obtain ⟨hwaiting, -, hready⟩ := Loop.waiting_next? hnext
  have hnodup : g.join.active.Nodup := List.nodup_range.filter _
  rw [step_wake_failed hnext hv hf]
  refine ⟨rfl, ?_⟩
  simp only [due, Join.abandon, id_eq]
  have hwaits : waits loop' = waits g.loop := by
    funext i
    rw [waits, hwaiting, waits]
  rw [filterMap_ready_withdrawAll loop' hnodup, hwaits, active_filter h.stage.accounts, hready]
  rfl

/-- **Nobody else is cancelled** once the failure was dealt with. -/
theorem cancellations_step (h : Watched scripts g) (he : g.outcome = some e)
    (hstarted : ∀ i < scripts.length, own i g.events ≠ [])
    (hnext : g.loop.next? = some (job, loop')) :
    cancellations g.step.events ++ g.step.due = cancellations g.events ++ g.due := by
  obtain ⟨hover, hresting, -⟩ := h.stage.finished he
  obtain ⟨-, -, hready⟩ := Loop.waiting_next? hnext
  have hpos := Loop.load_pos_of_next? hnext
  have hwake : job ≠ .wake := by
    rintro rfl
    exact absurd hover.wake hpos.ne'
  have hlaunch : job ≠ .launch := by
    rintro rfl
    exact absurd hover.launch hpos.ne'
  obtain ⟨added, hadded, hquiet⟩ := ready_perform g.join loop' hlaunch
  have hnothing : added.filterMap JoinJob.turn? = [] :=
    List.filterMap_eq_nil_iff.mpr fun j hj => (hquiet j hj).1
  rw [step_join hnext hwake (absurd · hlaunch)]
  simp only [due, hadded, hready, List.filterMap_append, hnothing, List.append_nil]
  cases job with
  | launch => exact absurd rfl hlaunch
  | wake => exact absurd rfl hwake
  | hear i =>
    rw [List.filterMap_cons_none rfl]
    simp [Join.perform]
  | turn i =>
    obtain ⟨⟨m, hm, hrunning⟩, -⟩ := h.stage.accounts.turn_running hpos
    obtain ⟨s, hs, hfollows⟩ := h.script hm
    cases m with
    | active farewell rest => exact absurd hm (hresting i farewell rest)
    | ended e' => cases hrunning
    | stopped farewell =>
      have hcut := hfollows.resolve_left id
      obtain ⟨-, hown, hlast⟩ := hcut.life_eq (hstarted i (List.getElem?_eq_some_iff.mp hs).1)
      have hone : cancellations farewell = [i] := by
        rw [cancellations_eq hown, hlast]
        rfl
      have hnew : (g.join.perform id loop' (.turn i)).1 = farewell := by
        simp [Join.perform, Join.turn_eq loop'.isOpen hm, Join.turnOf]
      rw [hnew, cancellations_append, hone]
      simp [JoinJob.turn?]

end Watched

/-! ## From beginning to end -/

/-- **A failure is dealt with in one move.** -/
theorem handled {moves : List Move} (he : ((watching scripts).after moves).outcome = some e) :
    ∃ before rest, moves = before ++ .tick :: rest ∧
      ((watching scripts).after before).outcome = none ∧
      ((watching scripts).after before).step.outcome = some e := by
  induction moves using List.reverseRecOn with
  | nil => cases he
  | append_singleton moves m ih =>
    cases hknown : ((watching scripts).after moves).outcome with
    | some e' =>
      rw [after_concat, (watched_after scripts moves).known_move hknown m] at he
      obtain rfl := Option.some.inj he
      obtain ⟨before, rest, rfl, hnone, hstep⟩ := ih hknown
      exact ⟨before, rest ++ [m], by simp, hnone, hstep⟩
    | none =>
      rw [after_concat] at he
      cases m with
      | release gate => cases hknown.symm.trans he
      | tick => exact ⟨moves, [], rfl, hknown, he⟩

namespace Watched

/-- Left alone nobody is cancelled. -/
theorem cancellations_none (h : Watched scripts g) (hnone : g.outcome = none) :
    cancellations g.events = [] := by
  refine List.eq_nil_iff_forall_not_mem.mpr fun i hi => ?_
  obtain ⟨s, m, hm, hcourse, hstarted, hlife⟩ := h.of_mem hnone (mem_cancellations.mp hi) rfl
  have hwhole := hcourse.life_eq hstarted
  cases m with
  | active farewell rest =>
    rw [hwhole] at hlife
    simp at hlife
  | stopped farewell => exact hwhole
  | ended e =>
    rw [hwhole.2] at hlife
    have hcancelled : (Milestone.ofEnding s.ending : Milestone ε) = .cancelled := by
      simpa [eq_comm] using hlife
    cases hs : s.ending <;> rw [hs] at hcancelled <;> cases hcancelled

/-- Nothing is pending once nothing is due and the outcome is known. -/
theorem ended_of_idle (h : Watched scripts g) (he : g.outcome = some e)
    (hidle : g.loop.idle = true) {i : Nat} {m : Member (Nat × Milestone ε) φ α}
    (hm : g.join.members[i]? = some m) : ∃ e', m = .ended e' := by
  obtain ⟨hover, hresting, -⟩ := h.stage.finished he
  have hready : g.loop.ready = [] := by simpa [Loop.idle] using hidle
  have hwaiting := hresting.waiting_nil hover.accounts
  have hseated := hover.accounts.seated i
  have hload : ∀ job, g.loop.load job = 0 := by
    intro job
    simp [Loop.load, hready, hwaiting]
  rw [hm] at hseated
  cases m with
  | ended e' => exact ⟨e', rfl⟩
  | active farewell rest => exact absurd hm (hresting i farewell rest)
  | stopped farewell =>
    have hone := hseated.1
    rw [hload] at hone
    cases hone

end Watched

/-- What is known since the failure of a gathering was dealt with in the state `start`. -/
structure Dealt (scripts : List (Script ε φ α)) (start g : Gathering (Nat × Milestone ε) φ α) :
    Prop where
  events : start.events <+: g.events
  started : ∀ i < scripts.length, own i start.events ≠ []
  cancelled : cancellations g.events ++ g.due = start.due ++ start.held

theorem Dealt.move {start : Gathering (Nat × Milestone ε) φ α} (hd : Dealt scripts start g)
    (h : Watched scripts g) (he : g.outcome = some e) (m : Move) :
    Dealt scripts start (g.move m) := by
  have hstarted : ∀ i < scripts.length, own i g.events ≠ [] := by
    intro i hi hnil
    obtain ⟨later, hlater⟩ := hd.events
    rw [← hlater, own_append] at hnil
    exact hd.started i hi (List.append_eq_nil_iff.mp hnil).1
  cases m with
  | release gate =>
    obtain ⟨hover, hresting, -⟩ := h.stage.finished he
    have hwaiting := hresting.waiting_nil hover.accounts
    refine ⟨hd.events, hd.started, ?_⟩
    rw [← hd.cancelled]
    simp [Gathering.move, release, due, Loop.release, hwaiting]
  | tick =>
    change Dealt scripts start g.step
    cases hnext : g.loop.next? with
    | none =>
      rw [step_of_idle hnext]
      exact hd
    | some p =>
      obtain ⟨new, hevents, -⟩ := h.step_new hnext
      refine ⟨hd.events.trans ⟨new, hevents.symm⟩, hd.started, ?_⟩
      exact (h.cancellations_step he hstarted hnext).trans hd.cancelled

theorem dealt_after {start : Gathering (Nat × Milestone ε) φ α} (hd : Dealt scripts start g)
    (h : Watched scripts g) (he : g.outcome = some e) (moves : List Move) :
    Dealt scripts start (g.after moves) := by
  induction moves generalizing g with
  | nil => exact hd
  | cons m moves ih => exact ih (hd.move h he m) (h.move m) (h.known_move he m)

/-- **How a gathering fails**: in one move, after which nobody is cancelled but those whose turns
were due already and those held at gates, in this order. -/
theorem fails {moves : List Move} (he : ((watching scripts).after moves).outcome = some e)
    (hf : e.failure? = some failure) :
    ∃ before rest, moves = before ++ .tick :: rest ∧
      ((watching scripts).after before).outcome = none ∧
      ((watching scripts).after before).step.outcome = some e ∧
      Blamed scripts ((watching scripts).after before) failure ∧
      (Patient (watching scripts) moves → ((watching scripts).after before).due = []) ∧
      Dealt scripts ((watching scripts).after before) ((watching scripts).after moves) := by
  obtain ⟨before, rest, rfl, hnone, hstep⟩ := handled he
  have h := watched_after scripts before
  have hgoing := going_after scripts before hnone
  refine ⟨before, rest, rfl, hnone, hstep, ?_⟩
  cases hnext : ((watching scripts).after before).loop.next? with
  | none =>
    rw [step_of_idle hnext, hnone] at hstep
    cases hstep
  | some p =>
    obtain ⟨job, loop'⟩ := p
    obtain ⟨-, -, hready⟩ := Loop.waiting_next? hnext
    rcases h.stage.step_cases hnext with ⟨-, -, hsame⟩ | ⟨-, -, -, hsame⟩ |
      ⟨_, -, -, -, -, hsame⟩ | ⟨e', _, -, rfl, hne, hv, -, hsame⟩
    · rw [hsame] at hstep
      cases hnone.symm.trans hstep
    · rw [hsame] at hstep
      cases hstep
      cases hf
    · rw [hsame] at hstep
      cases hstep
      cases hf
    · rw [hsame] at hstep
      obtain rfl := Option.some.inj hstep
      have hfailing : Join.failing ((watching scripts).after before).loop
          ((watching scripts).after before).join = some failure :=
        (Join.failing_of_verdict hv _).trans hf
      obtain ⟨hevents, hdue⟩ := h.closing hnext hv hf
      have hstarted : ∀ i < scripts.length, own i ((watching scripts).after before).events ≠ [] :=
        fun i hi => hgoing.orderly.all_started hnext hi
      refine ⟨hgoing.blamed failure hfailing, fun hpatient => ?_, ?_⟩
      · have hfirst := hgoing.turnsFirst fun b gate r heq =>
          hpatient b gate (r ++ .tick :: rest) (by rw [heq]; simp)
        unfold TurnsFirst at hfirst
        rw [hready] at hfirst
        unfold due
        rw [hready]
        refine List.filterMap_eq_nil_iff.mpr fun job hjob => ?_
        rcases List.mem_cons.mp hjob with rfl | hjob
        · rfl
        · exact (List.pairwise_cons.mp hfirst).1 job hjob rfl
      · have hdealt : Dealt scripts ((watching scripts).after before)
            ((watching scripts).after before).step := by
          refine ⟨⟨[], by simp [hevents]⟩, hstarted, ?_⟩
          rw [hevents, h.cancellations_none hnone, hdue, List.nil_append]
        rw [after_append]
        exact dealt_after hdealt (h.move .tick) (by rw [hsame]) rest

/-- **All that was returned**: every item has completed, with the values in the order of the
items. -/
theorem Watched.returned (h : Watched scripts g) {values : List α}
    (he : g.outcome = some (.returned values)) :
    scripts.map Script.ending = values.map .returned ∧
      ∀ i < scripts.length, life i g.events = [.started, .done] := by
  obtain ⟨hover, -, hverdict⟩ := h.stage.finished he
  have hended : ∀ i (s : Script ε φ α), scripts[i]? = some s → ∃ a, values[i]? = some a ∧
      s.ending = .returned a ∧ life i g.events = [.started, .done] := by
    intro i s hs
    obtain ⟨m, hm, hfollows⟩ := h.member hs
    rcases hverdict with hv | ⟨hnil, -⟩
    · have hall := hover.sound.returned values hv
      have hlt : i < g.join.tally.heard.length := by
        rw [hover.accounts.length_eq]
        exact (List.getElem?_eq_some_iff.mp hm).1
      have hlt' : i < values.length := by simpa [hall] using hlt
      have hheard : g.join.tally.heard[i]? = some (some (.returned values[i])) := by
        simp [hall, hlt']
      obtain rfl := Option.some.inj (hm.symm.trans (hover.accounts.heard_ended hheard))
      have hcourse := hfollows.resolve_right fun hcut => by cases hcut.1
      have hstarted : own i g.events ≠ [] := by
        have := hcourse.started fun _ => true
        simpa [Join.turnOf] using this
      obtain ⟨hending, hlife⟩ := hcourse.life_eq hstarted
      rw [life_own_events, ← hending] at hlife
      exact ⟨_, List.getElem?_eq_getElem hlt', hending.symm, hlife⟩
    · simp [hnil] at hm
  have hlength : values.length = scripts.length := by
    rcases hverdict with hv | ⟨hnil, -, hvalues⟩
    · have := hover.accounts.length_eq
      rw [hover.sound.returned values hv, List.length_map, h.length_eq] at this
      exact this
    · cases hvalues
      rw [← h.length_eq, hnil]
      rfl
  refine ⟨List.ext_getElem? fun i => ?_, fun i hi => ?_⟩
  · cases hs : scripts[i]? with
    | none =>
      have hle : scripts.length ≤ i := List.getElem?_eq_none_iff.mp hs
      have : values[i]? = none := List.getElem?_eq_none_iff.mpr (by omega)
      simp [hs, this]
    | some s =>
      obtain ⟨a, ha, hending, -⟩ := hended i s hs
      simp [hs, ha, hending]
  · obtain ⟨-, -, -, hlife⟩ := hended i _ (List.getElem?_eq_getElem hi)
    exact hlife

/-- Without an outcome and with nothing due, somebody is held at a gate, and nobody has failed. -/
theorem Watched.stuck (h : Watched scripts g) (hnone : g.outcome = none)
    (hidle : g.loop.idle = true) : g.held ≠ [] ∧ firstFailure g.events = none := by
  have hrunning := h.stage.running hnone
  have hready : g.loop.ready = [] := by simpa [Loop.idle] using hidle
  constructor
  · obtain ⟨p, hp⟩ := hrunning.accounts.waits hrunning.sound hrunning.wake
      (fun hnil => (hrunning.launch hnil).1) hready
    obtain ⟨hclosed, i, farewell, rest, hi, hm⟩ := hrunning.accounts.waiting p.1 p.2 hp
    have hmem : i ∈ g.held := by
      refine List.mem_filter.mpr ⟨List.mem_range.mpr (List.getElem?_eq_some_iff.mp hm).1, ?_⟩
      exact List.any_eq_true.mpr ⟨p, hp, by simp [hi, hclosed]⟩
    exact List.ne_nil_of_mem hmem
  · refine h.firstFailure_none hnone ?_
    cases hv : g.join.tally.verdict with
    | none => rw [Join.failing_of_none hv, hready]; rfl
    | some v =>
      have hwake := hrunning.wake
      rw [hv] at hwake
      rcases Loop.mem_of_load (hwake ▸ Nat.one_pos : 0 < g.loop.load .wake) with hr | ⟨gate, hw⟩
      · rw [hready] at hr
        cases hr
      · obtain ⟨-, i, _, _, hi, -⟩ := hrunning.accounts.waiting gate _ hw
        cases hi

/-- The life of every item is over once nothing is due and the outcome is known. -/
theorem Watched.lives (h : Watched scripts g) (he : g.outcome = some e)
    (hstarted : ∀ i < scripts.length, own i g.events ≠ []) (hidle : g.loop.idle = true) {i : Nat}
    {s : Script ε φ α} (hs : scripts[i]? = some s) :
    life i g.events = [.started, .ofEnding s.ending] ∨
      life i g.events = [.started, .cancelled] := by
  obtain ⟨m, hm, hfollows⟩ := h.member hs
  obtain ⟨e', rfl⟩ := h.ended_of_idle he hidle hm
  have hown := hstarted i (List.getElem?_eq_some_iff.mp hs).1
  rw [← life_own_events]
  rcases hfollows with hcourse | hcut
  · exact .inl (hcourse.life_eq hown).2
  · exact .inr (hcut.life_eq hown).2

/-- A cancellation is recorded only after a failure was. -/
theorem cancelled_after_failed {moves : List Move} {before rest : List (Nat × Milestone ε)}
    {i : Nat}
    (hlog : ((watching scripts).after moves).events = before ++ (i, .cancelled) :: rest) :
    ∃ k, (k, .failed) ∈ before := by
  have h := watched_after scripts moves
  have hmem : (i, .cancelled) ∈ ((watching scripts).after moves).events := by simp [hlog]
  cases he : ((watching scripts).after moves).outcome with
  | none =>
    have := mem_cancellations.mpr hmem
    rw [h.cancellations_none he] at this
    cases this
  | some e =>
    cases hf : e.failure? with
    | none =>
      obtain ⟨values, rfl⟩ := Ending.failure?_eq_none.mp hf
      have hlife := (h.returned he).2 i (h.inRange _ hmem)
      have hlived : .cancelled ∈ life i ((watching scripts).after moves).events :=
        (mem_life rfl).mpr hmem
      rw [hlife] at hlived
      simp at hlived
    | some failure =>
      obtain ⟨earlier, _, _, hnone, _, ⟨k, s, hfirst, -⟩, _, hd⟩ := fails he hf
      obtain ⟨later, hlater⟩ := hd.events
      rw [hlog] at hlater
      -- The cancellation is not among what was recorded before the failure was dealt with.
      have hquiet : (i, .cancelled) ∉ ((watching scripts).after earlier).events := by
        intro hin
        have := mem_cancellations.mpr hin
        rw [(watched_after scripts earlier).cancellations_none hnone] at this
        cases this
      rcases List.append_eq_append_iff.mp hlater with
        ⟨between, hbefore, -⟩ | ⟨between, hstart, hrest⟩
      · exact ⟨k, by rw [hbefore]; exact List.mem_append_left _ (mem_of_firstFailure hfirst)⟩
      · cases between with
        | nil =>
          rw [List.append_nil] at hstart
          exact ⟨k, hstart ▸ mem_of_firstFailure hfirst⟩
        | cons p between =>
          obtain ⟨rfl, -⟩ := List.cons_eq_cons.mp hrest
          exact absurd (by rw [hstart]; simp) hquiet

/-- **A gathering returns all or fails as a whole**, whatever the items do and in whatever order
jobs are carried out and gates are opened. Nothing is due any more once it has settled. Without an
outcome somebody is held at a gate then, and nobody has failed. What it returns are the values of
all items, in their order. Otherwise it fails with the failure of the item that failed first. Those
who are cancelled when that is dealt with are the items whose gates have been opened so late that
they have not run since, in the order in which they came to be due, and after them those held at
closed gates, in their order; nobody is among the first if gates are opened only while nothing is
due. Nobody is cancelled before somebody has failed. In the end every item has started and has ended
once. -/
theorem gathers_or_fails (scripts : List (Script ε φ α)) (moves : List Move) :
    let start := watching scripts
    let g := start.after moves
    (g.settle.loop.idle = true ∧
      ∃ ticks, g.settle = start.after (moves ++ List.replicate ticks .tick)) ∧
    (g.loop.idle = true → g.outcome = none → g.held ≠ [] ∧ firstFailure g.events = none) ∧
    (∀ values, g.outcome = some (.returned values) →
      scripts.map Script.ending = values.map .returned ∧
      ∀ i < scripts.length, life i g.events = [.started, .done]) ∧
    (∀ e failure, g.outcome = some e → e.failure? = some failure →
      ∃ before rest, moves = before ++ .tick :: rest ∧
        (start.after before).outcome = none ∧ (start.after before).step.outcome = some e ∧
        (∃ i s, firstFailure (start.after before).events = some i ∧ scripts[i]? = some s ∧
          s.ending.failure? = some failure) ∧
        cancellations g.events ++ g.due = (start.after before).due ++ (start.after before).held ∧
        (g.loop.idle = true →
          cancellations g.events = (start.after before).due ++ (start.after before).held) ∧
        (Patient start moves → (start.after before).due = [])) ∧
    (∀ before i rest, g.events = before ++ (i, .cancelled) :: rest → ∃ k, (k, .failed) ∈ before) ∧
    (g.loop.idle = true → g.outcome ≠ none → g.loop.waiting = [] ∧
      ∀ i s, scripts[i]? = some s → life i g.events = [.started, .ofEnding s.ending] ∨
        life i g.events = [.started, .cancelled]) := by
  intro start g
  have h := watched_after scripts moves
  refine ⟨settle_spec _ moves, fun hidle hnone => h.stuck hnone hidle, fun values => h.returned, ?_,
    fun before i rest => cancelled_after_failed, fun hidle hknown => ?_⟩
  · intro e failure he hf
    obtain ⟨before, rest, hmoves, hnone, hstep, hblamed, hpatient, hd⟩ := fails he hf
    refine ⟨before, rest, hmoves, hnone, hstep, hblamed, hd.cancelled, fun hidle => ?_, hpatient⟩
    have hready : g.loop.ready = [] := by simpa [Loop.idle] using hidle
    have hdue : g.due = [] := by simp [due, hready]
    have hall : cancellations g.events ++ g.due = _ := hd.cancelled
    rwa [hdue, List.append_nil] at hall
  · obtain ⟨e, he⟩ := Option.ne_none_iff_exists'.mp hknown
    obtain ⟨hover, hresting, -⟩ := h.stage.finished he
    refine ⟨hresting.waiting_nil hover.accounts, fun i s hs => ?_⟩
    refine h.lives he (fun i hi hnil => ?_) hidle hs
    cases hf : e.failure? with
    | none =>
      obtain ⟨values, rfl⟩ := Ending.failure?_eq_none.mp hf
      have hlife := (h.returned he).2 i hi
      rw [← life_own_events, hnil] at hlife
      cases hlife
    | some failure =>
      obtain ⟨before, _, _, _, _, _, _, hd⟩ := fails he hf
      obtain ⟨later, hlater⟩ := hd.events
      rw [← hlater, own_append] at hnil
      exact hd.started i hi (List.append_eq_nil_iff.mp hnil).1

/-- The cancelled items are those held at closed gates when the failure is dealt with, in their
order. -/
def CancelsHeld (scripts : List (Script ε φ α)) (moves : List Move) : Prop :=
  let start := watching scripts
  ∀ before rest e failure, moves = before ++ .tick :: rest →
    (start.after before).outcome = none → (start.after before).step.outcome = some e →
    e.failure? = some failure → (start.after moves).loop.idle = true →
    cancellations (start.after moves).events = (start.after before).held

/-- Three items, of which the second fails at once and the others wait at gates. -/
def waitingTwo : List (Script Empty Unit Nat) :=
  let waits (gate : Gate) : Script Empty Unit Nat := .hold gate [] (.finish (.returned 0))
  [waits "a", .finish (.raised ()), waits "b"]

/-- The gate of the first item is opened after the failure has been heard of and before it is dealt
with. -/
def lateOpening : List Move := List.replicate 5 .tick ++ .release "a" :: List.replicate 5 .tick

/-- Where the failure is dealt with, the turn of the first item is due, and the last one is held. -/
theorem due_lateOpening {before rest : List Move} (hmoves : lateOpening = before ++ .tick :: rest)
    (hnone : ((watching waitingTwo).after before).outcome = none)
    (hstep : ((watching waitingTwo).after before).step.outcome ≠ none) :
    ((watching waitingTwo).after before).due = [0] ∧
      ((watching waitingTwo).after before).held = [2] := by
  have hpoint : ∀ n < lateOpening.length,
      let g := (watching waitingTwo).after (lateOpening.take n)
      lateOpening[n]? = some .tick ∧ g.outcome = none ∧ g.step.outcome ≠ none →
        g.due = [0] ∧ g.held = [2] := by decide
  have hbefore : before = lateOpening.take before.length := by rw [hmoves, List.take_left]
  have hlt : before.length < lateOpening.length := by
    rw [hmoves, List.length_append, List.length_cons]
    omega
  have htick : lateOpening[before.length]? = some .tick := by
    rw [hmoves, List.getElem?_append_right (Nat.le_refl _)]
    simp
  rw [hbefore] at hnone hstep ⊢
  exact hpoint _ hlt ⟨htick, hnone, hstep⟩

/-- Both are cancelled here, the one whose gate is open first. -/
theorem gathers_or_fails_late :
    let start := watching waitingTwo
    let g := start.after lateOpening
    g.loop.idle = true ∧ g.outcome = some (.raised ()) ∧
      ∃ before, (start.after before).due = [0] ∧ (start.after before).held = [2] ∧
        cancellations g.events = (start.after before).due ++ (start.after before).held := by
  intro start g
  have hidle : g.loop.idle = true := by decide
  have houtcome : g.outcome = some (.raised ()) := by decide
  obtain ⟨-, -, -, hfails, -⟩ := gathers_or_fails waitingTwo lateOpening
  obtain ⟨before, rest, hmoves, hnone, hstep, -, -, hcancelled, -⟩ := hfails _ _ houtcome rfl
  obtain ⟨hdue, hheld⟩ := due_lateOpening hmoves hnone (by rw [hstep]; simp)
  exact ⟨hidle, houtcome, before, hdue, hheld, hcancelled hidle⟩

/-- So the cancelled items are not just those held at closed gates. -/
theorem not_cancelsHeld_late : ¬ CancelsHeld waitingTwo lateOpening := by
  intro holds
  have hcancelled := holds (List.replicate 5 .tick ++ [.release "a"]) (List.replicate 4 .tick)
    (.raised ()) (.raised ()) rfl (by decide) (by decide) rfl (by decide)
  revert hcancelled
  decide

end Gathering

end DepGraph
