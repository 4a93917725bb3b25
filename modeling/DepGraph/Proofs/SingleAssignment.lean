import DepGraph.Proofs.Computations
import DepGraph.Proofs.Passing

/-!
# A cell is assigned once

Whatever is done to a cell and its computation, in whatever order, only the script of the first
start runs, and it runs once. A refused operation closes the script that it was given, and changes
nothing else.

* `Computation.refusal?` — why an operation is refused, if it is.
* `Computation.Course` — the one script has not been given yet, is due, is held at a closed gate, or
  is over: `Computation.course_run` says that it is always one of these.
* `Computation.offered_perm` — every script that is handed over is that one, or is closed.
* `CellState.Moves` — the changes of state that there are.
* `Computation.Served` — what those who wait have come to.
* `Computation.settle_spec` — carrying out jobs comes to a state in which none is due.
* `Computation.single_assignment` — **the cell as a state machine**, put together from these.
-/

set_option autoImplicit false

namespace DepGraph

namespace Cell

variable {τ φ α : Type}

/-- There is a result exactly where the computation has returned. -/
theorem result?_isSome (c : Cell τ φ α) : c.result?.isSome = true ↔ c.state = .done := by
  unfold result? state
  rcases c.stage with _ | _ | (_ | _ | _) <;> simp

/-- There is a failure exactly where the computation has ended without a result. -/
theorem failure?_isSome (c : Cell τ φ α) : c.failure?.isSome = true ↔ c.state = .failed := by
  unfold failure? state
  rcases c.stage with _ | _ | (_ | _ | _) <;> simp

end Cell

/-- The changes of state that there are: a start, and an end when a job is carried out. -/
inductive CellState.Moves {ε φ α : Type} : CellState → Computation.Op ε φ α → CellState → Prop
  | stays (state : CellState) (o : Computation.Op ε φ α) : Moves state o state
  | starts (script : Script ε φ α) : Moves .unstarted (.start script) .inProgress
  | returns : Moves .inProgress .tick .done
  | fails : Moves .inProgress .tick .failed

namespace Computation

variable {ε φ α : Type} {c : Computation ε φ α} {s : Script ε φ α} {first : Option (Script ε φ α)}
  {gone : List Nat}

/-! ## Refusals -/

/-- Why an operation is refused, if it is. -/
def refusal? (c : Computation ε φ α) : Op ε φ α → Option CellError
  | .start script => (c.offer true script).2
  | .startWithoutLoop script => (c.offer false script).2
  | .attach => match c.attach with
    | .ok _ => none
    | .error e => some e
  | .tick | .giveUp _ | .release _ => none

theorem refusal?_start (c : Computation ε φ α) (script : Script ε φ α) :
    c.refusal? (.start script) =
      if c.cell.state = .unstarted then none else some .alreadyStarted := by
  rcases stage : c.cell.stage with _ | _ | (_ | _ | _) <;>
    simp [refusal?, offer, Cell.start, Cell.state, stage]

theorem refusal?_startWithoutLoop (c : Computation ε φ α) (script : Script ε φ α) :
    c.refusal? (.startWithoutLoop script) =
      some (if c.cell.state = .unstarted then .noLoop else .alreadyStarted) := by
  rcases stage : c.cell.stage with _ | _ | (_ | _ | _) <;>
    simp [refusal?, offer, Cell.startWithoutLoop, Cell.state, stage]

theorem refusal?_attach (c : Computation ε φ α) :
    c.refusal? .attach = if c.cell.state = .unstarted then some .notStarted else none := by
  rcases stage : c.cell.stage with _ | _ | (_ | _ | _) <;>
    simp [refusal?, attach, Cell.attach, Cell.state, stage]

/-- The script that an operation hands over. -/
def Op.offered? : Op ε φ α → Option (Script ε φ α)
  | .start script | .startWithoutLoop script => some script
  | _ => none

/-- **A refused operation** closes the script that it was given, if any, and changes nothing else. -/
theorem op_of_refused {o : Op ε φ α} {e : CellError} (h : c.refusal? o = some e) :
    c.op o = { c with closed := c.closed ++ o.offered?.toList } := by
  have unchanged : c = { c with closed := c.closed ++ [] } := by rw [List.append_nil]
  cases o with
  | start script =>
    rw [refusal?_start] at h
    split at h
    · cases h
    · next started => exact start_again (mt Cell.state_eq_unstarted.2 started) script
  | startWithoutLoop script => rfl
  | attach =>
    rw [refusal?_attach] at h
    split at h
    · next fresh => exact (attach_unstarted (Cell.state_eq_unstarted.1 fresh)).trans unchanged
    · cases h
  | tick => cases h
  | giveUp k => cases h
  | release gate => cases h

/-- An operation that is not refused closes no script. -/
theorem closed_op {o : Op ε φ α} (h : c.refusal? o = none) : (c.op o).closed = c.closed := by
  cases o with
  | tick =>
    change c.step.closed = _
    cases next : c.loop.next? with
    | none => rw [step_of_none next]
    | some due =>
      obtain ⟨_ | k, loop⟩ := due <;> rw [step_eq next]
      · simp only [perform]
        split
        · rfl
        · split <;> rfl
      · rfl
  | start script =>
    rw [refusal?_start] at h
    split at h
    · next fresh => rw [start_unstarted (Cell.state_eq_unstarted.1 fresh)]
    · cases h
  | startWithoutLoop script =>
    rw [refusal?_startWithoutLoop] at h
    cases h
  | attach =>
    rw [refusal?_attach] at h
    split at h
    · cases h
    · next started => rw [attach_started (mt Cell.state_eq_unstarted.2 started)]
  | giveUp k => rfl
  | release gate => rfl

/-! ## The one script -/

/-- The script that an operation wants to start. -/
def Op.start? : Op ε φ α → Option (Script ε φ α)
  | .start script => some script
  | _ => none

/-- No script has been given yet. -/
structure Fresh (c : Computation ε φ α) : Prop where
  stage : c.cell.stage = .unstarted
  waiters : c.cell.waiters = []
  script : c.script = none
  events : c.events = []
  ready : c.loop.ready = []
  waiting : c.loop.waiting = []

/-- The script is to run on. -/
structure Due (s : Script ε φ α) (c : Computation ε φ α) : Prop where
  stage : c.cell.stage = .inProgress
  ready : c.loop.ready = [.run]
  waiting : c.loop.waiting = []
  passes : ∃ rest, c.script = some rest ∧ s.Passes c.loop.isOpen c.events rest

/-- The script is held at a closed gate. -/
structure Held (s : Script ε φ α) (c : Computation ε φ α) : Prop where
  stage : c.cell.stage = .inProgress
  ready : c.loop.ready = []
  held : ∃ gate farewell rest, c.loop.waiting = [(gate, .run)] ∧ c.loop.isOpen gate = false ∧
    c.script = some rest ∧ s.Passes c.loop.isOpen c.events (.hold gate farewell rest)

/-- The script has run to its end, and never runs again. -/
structure Over (s : Script ε φ α) (c : Computation ε φ α) : Prop where
  stage : c.cell.stage = .ended s.ending
  script : c.script = none
  events : c.events = s.events
  ready : .run ∉ c.loop.ready
  waiting : c.loop.waiting = []

/-- How far the first script that was given has come. -/
def Course (first : Option (Script ε φ α)) (c : Computation ε φ α) : Prop :=
  match first with
  | none => c.Fresh
  | some s => c.Due s ∨ c.Held s ∨ c.Over s

theorem fresh_initial : ({} : Computation ε φ α).Fresh := ⟨rfl, rfl, rfl, rfl, rfl, rfl⟩

theorem Course.started (h : c.Course (some s)) : c.cell.stage ≠ .unstarted := by
  rcases h with h | h | h <;> simp [h.stage]

/-- How far a script has come is told by the stage, the loop, the script and the events. -/
theorem Course.congr (h : c.Course (some s)) {c' : Computation ε φ α}
    (stage : c'.cell.stage = c.cell.stage) (loop : c'.loop = c.loop) (script : c'.script = c.script)
    (events : c'.events = c.events) : c'.Course (some s) := by
  obtain ⟨loop', cell', script', events', closed'⟩ := c'
  dsimp only at stage loop script events
  subst loop script events
  exact h.imp (fun h => ⟨stage.trans h.stage, h.ready, h.waiting, h.passes⟩) <|
    .imp (fun h => ⟨stage.trans h.stage, h.ready, h.held⟩)
      fun h => ⟨stage.trans h.stage, h.script, h.events, h.ready, h.waiting⟩

theorem Course.close (h : c.Course first) (script : Script ε φ α) :
    (c.close script).Course first := by
  cases first with
  | none => exact ⟨h.stage, h.waiters, h.script, h.events, h.ready, h.waiting⟩
  | some s => exact h.congr rfl rfl rfl rfl

theorem isOpen_release_of_isOpen {loop : Loop ComputationJob} (gate : Gate) {other : Gate}
    (h : loop.isOpen other = true) : (loop.release gate).isOpen other = true := by
  rw [Loop.isOpen_release, h, Bool.true_or]

/-- The script runs on, to a closed gate or to its end. Then those who wait are to be told. -/
theorem Due.step (h : c.Due s) :
    c.step.Held s ∨ c.step.Over s ∧ c.step.loop.ready.length ≤ c.cell.waiters.length := by
  obtain ⟨rest, script, passes⟩ := h.passes
  have next : c.loop.next? = some (.run, { c.loop with ready := [] }) := by
    simp [Loop.next?, h.ready]
  rw [step_eq next]
  have advances := rest.advance_passes c.loop.isOpen
  have isOpen : ({ c.loop with ready := [] } : Loop ComputationJob).isOpen = c.loop.isOpen := rfl
  simp only [perform, script, isOpen]
  rcases rest.advance_spec c.loop.isOpen with
    ⟨events, advance, reaches⟩ | ⟨events, gate, farewell, later, advance, -, closed, -⟩
  · rw [advance] at advances ⊢
    refine .inr ⟨⟨?_, rfl, ?_, by simp [Loop.postAll], h.waiting⟩, ?_⟩
    · exact congrArg Stage.ended passes.reaches.ending_eq.symm
    · simpa [Pause.script, Script.events] using (passes.trans advances).reaches.events_eq.symm
    · have few := List.length_filter_le c.cell.isPending (List.range c.cell.waiters.length)
      simpa [Loop.postAll, Cell.pending] using few
  · rw [advance] at advances ⊢
    refine .inl ⟨h.stage, rfl, gate, farewell, later, ?_, closed, rfl, passes.trans advances⟩
    simp [Loop.park, h.waiting]

/-- Somebody is told, and the script stays where it is. -/
theorem Over.step (h : c.Over s) : c.step.Over s ∧ c.step.loop.ready = c.loop.ready.tail := by
  cases next : c.loop.next? with
  | none =>
    have ready : c.loop.ready = [] := by
      unfold Loop.next? at next
      split at next
      · assumption
      · cases next
    rw [step_of_none next, ready]
    exact ⟨h, rfl⟩
  | some due =>
    obtain ⟨job, loop⟩ := due
    obtain ⟨ready, loop_eq⟩ : c.loop.ready = job :: loop.ready ∧
        loop = { c.loop with ready := loop.ready } := by
      unfold Loop.next? at next
      split at next
      · cases next
      · next first rest ready =>
          cases next
          exact ⟨ready, rfl⟩
    have noRun : .run ∉ job :: loop.ready := ready ▸ h.ready
    rw [step_eq next]
    cases job with
    | run => exact absurd List.mem_cons_self noRun
    | tell k =>
      have waiting : loop.waiting = [] := by
        rw [loop_eq]
        exact h.waiting
      refine ⟨⟨?_, h.script, h.events, fun run => noRun (List.mem_cons_of_mem _ run), waiting⟩, ?_⟩
      · simp only [perform, Cell.tell_of_ended h.stage, Cell.stage_settleWaiter, h.stage]
      · rw [ready]
        rfl

theorem Held.release (h : c.Held s) (gate : Gate) :
    (c.release gate).Due s ∨ (c.release gate).Held s := by
  obtain ⟨at_, farewell, rest, waiting, closed, script, passes⟩ := h.held
  have passes' : s.Passes (c.loop.release gate).isOpen c.events (.hold at_ farewell rest) :=
    passes.mono fun _ => isOpen_release_of_isOpen gate
  by_cases opened : at_ = gate
  · subst opened
    refine .inl ⟨h.stage, ?_, ?_, rest, script, ?_⟩
    · simp [Computation.release, Loop.release, h.ready, waiting]
    · simp [Computation.release, Loop.release, waiting]
    · have isOpen : (c.loop.release at_).isOpen at_ = true := by simp [Loop.isOpen_release]
      have beyond := passes'.trans (.hold at_ farewell isOpen (.refl rest))
      rwa [List.append_nil] at beyond
  · refine .inr ⟨h.stage, ?_, at_, farewell, rest, ?_, ?_, script, passes'⟩
    · simp [Computation.release, Loop.release, h.ready, waiting, opened]
    · simp [Computation.release, Loop.release, waiting, opened]
    · simp [Computation.release, Loop.isOpen_release, closed, opened]

/-- **Every operation** keeps to the one script. -/
theorem Course.op (h : c.Course first) (o : Op ε φ α) : (c.op o).Course (first.or o.start?) := by
  cases o with
  | tick =>
    cases first with
    | none =>
      have idle : c.step = c := step_of_none (by simp [Loop.next?, h.ready])
      change c.step.Fresh
      rwa [idle]
    | some s =>
      rcases h with h | h | h
      · exact .inr (h.step.imp_right And.left)
      · have idle : c.step = c := step_of_none (by simp [Loop.next?, h.ready])
        refine .inr (.inl ?_)
        change c.step.Held s
        rwa [idle]
      · exact .inr (.inr h.step.1)
  | start script =>
    cases first with
    | none =>
      rw [start_unstarted h.stage]
      refine .inl ⟨rfl, by simp [Loop.post, h.ready], h.waiting, script, rfl, ?_⟩
      rw [h.events]
      exact .refl script
    | some s =>
      rw [start_again h.started]
      exact h.close script
  | startWithoutLoop script =>
    change (c.close script).Course (first.or none)
    rw [Option.or_none]
    exact h.close script
  | attach =>
    cases first with
    | none =>
      rw [attach_unstarted h.stage]
      exact h
    | some s =>
      rw [attach_started h.started]
      exact h.congr rfl rfl rfl rfl
  | giveUp k =>
    have stage : (c.giveUp k).cell.stage = c.cell.stage := Cell.stage_settleWaiter _ _ _
    cases first with
    | none =>
      refine ⟨stage.trans h.stage, ?_, h.script, h.events, h.ready, h.waiting⟩
      simp [Computation.op, Computation.giveUp, Cell.giveUp, Cell.settleWaiter, h.waiters]
    | some s => exact h.congr stage rfl rfl rfl
  | release gate =>
    cases first with
    | none =>
      exact ⟨h.stage, h.waiters, h.script, h.events,
        by simp [Computation.op, Computation.release, Loop.release, h.ready, h.waiting],
        by simp [Computation.op, Computation.release, Loop.release, h.waiting]⟩
    | some s =>
      rcases h with h | h | h
      · obtain ⟨rest, script, passes⟩ := h.passes
        refine .inl ⟨h.stage, ?_, ?_, rest, script,
          passes.mono fun _ => isOpen_release_of_isOpen gate⟩
        · simp [Computation.op, Computation.release, Loop.release, h.ready, h.waiting]
        · simp [Computation.op, Computation.release, Loop.release, h.waiting]
      · exact (h.release gate).imp_right .inl
      · refine .inr (.inr ⟨h.stage, h.script, h.events, ?_, ?_⟩)
        · simpa [Computation.op, Computation.release, Loop.release, h.waiting] using h.ready
        · simp [Computation.op, Computation.release, Loop.release, h.waiting]

theorem Course.run (h : c.Course first) (ops : List (Op ε φ α)) :
    ((system ε φ α).run c ops).Course (first.or (ops.findSome? Op.start?)) := by
  induction ops generalizing c first with
  | nil =>
    change c.Course (first.or none)
    rwa [Option.or_none]
  | cons o rest ih =>
    have course := ih (h.op o)
    have findSome : (o :: rest).findSome? Op.start? = o.start?.or (rest.findSome? Op.start?) := by
      rw [List.findSome?_cons]
      cases o.start? <;> rfl
    rw [Option.or_assoc, ← findSome] at course
    exact course

/-- **Only the first script that was given runs**, and it runs once. -/
theorem course_run (ops : List (Op ε φ α)) :
    ((system ε φ α).run {} ops).Course (ops.findSome? Op.start?) := by
  have fresh : ({} : Computation ε φ α).Course none := fresh_initial
  exact fresh.run ops

/-- **Every script that is handed over** is that of the first start, or is closed. -/
theorem offered_perm (ops : List (Op ε φ α)) :
    (ops.filterMap Op.offered?).Perm
      ((ops.findSome? Op.start?).toList ++ ((system ε φ α).run {} ops).closed) := by
  induction ops using List.reverseRecOn with
  | nil => exact .refl _
  | append_singleton ops o ih =>
    have course := course_run ops
    have run : (system ε φ α).run {} (ops ++ [o]) = ((system ε φ α).run {} ops).op o :=
      System.run_append _ _ _
    rw [List.filterMap_append, List.findSome?_append, run]
    generalize (system ε φ α).run {} ops = c at course ih
    have one : [o].filterMap Op.offered? = o.offered?.toList := by
      cases h : o.offered? <;> simp [h]
    have start : [o].findSome? Op.start? = o.start? := by
      cases h : o.start? <;> simp [h]
    rw [one, start]
    cases refused : c.refusal? o with
    | some e =>
      -- The first start is an earlier one, or there is none yet.
      have first : (ops.findSome? Op.start?).or o.start? = ops.findSome? Op.start? := by
        cases found : ops.findSome? Op.start? with
        | some s => rfl
        | none =>
          rw [found] at course
          cases o with
          | start script =>
            rw [refusal?_start, if_pos (Cell.state_eq_unstarted.2 course.stage)] at refused
            cases refused
          | tick | startWithoutLoop | attach | giveUp | release => rfl
      rw [first, op_of_refused refused, ← List.append_assoc]
      exact ih.append_right _
    | none =>
      rw [closed_op refused]
      cases o with
      | start script =>
        have none_before : ops.findSome? Op.start? = none := by
          cases found : ops.findSome? Op.start? with
          | none => rfl
          | some s =>
            rw [found] at course
            rw [refusal?_start, if_neg (mt Cell.state_eq_unstarted.1 course.started)] at refused
            cases refused
        rw [none_before] at ih ⊢
        exact (ih.append_right _).trans List.perm_append_comm
      | startWithoutLoop script =>
        rw [refusal?_startWithoutLoop] at refused
        cases refused
      | tick | attach | giveUp | release =>
        simpa [Op.offered?, Op.start?] using ih

/-! ## Changes of state -/

/-- **The stage changes** with a start where nothing has started, and with a job where the script
was in progress. -/
theorem Course.stage_op (h : c.Course first) (o : Op ε φ α) :
    (c.op o).cell.stage = c.cell.stage ∨
      c.cell.stage = .unstarted ∧ (c.op o).cell.stage = .inProgress ∧ (∃ s, o = .start s) ∨
      c.cell.stage = .inProgress ∧ (∃ e, (c.op o).cell.stage = .ended e) ∧ o = .tick := by
  cases o with
  | tick =>
    change c.step.cell.stage = _ ∨ _
    cases first with
    | none =>
      rw [step_of_none (by simp [Loop.next?, h.ready])]
      exact .inl rfl
    | some s =>
      rcases h with h | h | h
      · rcases h.step with held | ⟨hover, -⟩
        · exact .inl (held.stage.trans h.stage.symm)
        · exact .inr (.inr ⟨h.stage, ⟨_, hover.stage⟩, rfl⟩)
      · rw [step_of_none (by simp [Loop.next?, h.ready])]
        exact .inl rfl
      · exact .inl (h.step.1.stage.trans h.stage.symm)
  | start script =>
    by_cases fresh : c.cell.stage = .unstarted
    · rw [start_unstarted fresh]
      exact .inr (.inl ⟨fresh, rfl, script, rfl⟩)
    · rw [start_again fresh]
      exact .inl rfl
  | startWithoutLoop script => exact .inl rfl
  | attach =>
    by_cases fresh : c.cell.stage = .unstarted
    · rw [attach_unstarted fresh]
      exact .inl rfl
    · rw [attach_started fresh]
      exact .inl rfl
  | giveUp k => exact .inl (Cell.stage_settleWaiter _ _ _)
  | release gate => exact .inl rfl

theorem Course.moves (h : c.Course first) (o : Op ε φ α) :
    CellState.Moves c.cell.state o (c.op o).cell.state := by
  rcases h.stage_op o with same | ⟨before, after, script, rfl⟩ | ⟨before, ⟨e, after⟩, rfl⟩
  · have state : (c.op o).cell.state = c.cell.state := by simp only [Cell.state, same]
    rw [state]
    exact .stays _ o
  · rw [Cell.state_eq_unstarted.2 before, Cell.state_eq_inProgress.2 after]
    exact .starts script
  · rw [Cell.state_eq_inProgress.2 before]
    cases e with
    | returned a =>
      have state : (c.op .tick).cell.state = .done := by simp only [Cell.state, after]
      exact state ▸ .returns
    | raised f =>
      have state : (c.op .tick).cell.state = .failed := by simp only [Cell.state, after]
      exact state ▸ .fails
    | cancelled =>
      have state : (c.op .tick).cell.state = .failed := by simp only [Cell.state, after]
      exact state ▸ .fails

/-- **How the computation ended** stays so, whatever is done. -/
theorem Course.stays_ended (h : c.Course first) {e : Ending φ α} (ended : c.cell.stage = .ended e)
    (ops : List (Op ε φ α)) : ((system ε φ α).run c ops).cell.stage = .ended e := by
  induction ops generalizing c first with
  | nil => exact ended
  | cons o rest ih =>
    refine ih (h.op o) ?_
    rcases h.stage_op o with same | ⟨before, -⟩ | ⟨before, -⟩
    · exact same.trans ended
    · rw [ended] at before
      cases before
    · rw [ended] at before
      cases before

/-! ## Those who wait -/

/-- Who gives up with an operation: a waiter that has no outcome yet. -/
def dropped (c : Computation ε φ α) : Op ε φ α → List Nat
  | .giveUp k => if c.cell.isPending k then [k] else []
  | _ => []

/-- Who gives up in the course of several operations. -/
def gaveUp : Computation ε φ α → List (Op ε φ α) → List Nat
  | _, [] => []
  | c, o :: rest => c.dropped o ++ gaveUp (c.op o) rest

/-- Those who have given up are cancelled; the others have the outcome of the computation or
none. -/
structure Served (gone : List Nat) (c : Computation ε φ α) : Prop where
  left : ∀ k ∈ gone, ∃ x, c.cell.waiters[k]? = some x ∧ x.outcome = some .cancelled
  stayed : ∀ k x o, c.cell.waiters[k]? = some x → k ∉ gone → x.outcome = some o →
    c.cell.stage = .ended o

/-- Whoever has an outcome keeps it. -/
theorem getElem?_op_of_outcome {k : Nat} {x : Waiter Unit φ α} {outcome : Ending φ α}
    (hx : c.cell.waiters[k]? = some x) (known : x.outcome = some outcome) (o : Op ε φ α) :
    (c.op o).cell.waiters[k]? = some x := by
  have settled : ∀ j e, (c.cell.settleWaiter j e).1.waiters[k]? = some x := by
    intro j e
    rw [Cell.getElem?_settleWaiter, hx, Option.map_some, known]
    simp
  cases o with
  | tick =>
    change c.step.cell.waiters[k]? = some x
    cases next : c.loop.next? with
    | none => rwa [step_of_none next]
    | some due =>
      obtain ⟨job, loop⟩ := due
      rw [step_eq next]
      cases job with
      | run =>
        simp only [perform]
        split
        · exact hx
        · split <;> exact hx
      | tell j =>
        simp only [perform, Cell.tell]
        split
        · exact settled j _
        · exact hx
  | start script =>
    by_cases fresh : c.cell.stage = .unstarted
    · rwa [start_unstarted fresh]
    · rwa [start_again fresh]
  | startWithoutLoop script => exact hx
  | attach =>
    by_cases fresh : c.cell.stage = .unstarted
    · rwa [attach_unstarted fresh]
    · rw [attach_started fresh]
      exact (List.getElem?_append_left (List.getElem?_eq_some_iff.1 hx).1).trans hx
  | giveUp j => exact settled j _
  | release gate => exact hx

/-- A waiter comes to have an outcome by giving up, or else it is that of the computation. -/
theorem outcome_op (o : Op ε φ α) {k : Nat} {x : Waiter Unit φ α} {outcome : Ending φ α}
    (hx : (c.op o).cell.waiters[k]? = some x) (known : x.outcome = some outcome) :
    c.cell.waiters[k]? = some x ∨ k ∈ c.dropped o ∨ c.cell.stage = .ended outcome := by
  have settled : ∀ j e, (c.cell.settleWaiter j e).1.waiters[k]? = some x →
      c.cell.waiters[k]? = some x ∨ k = j ∧ c.cell.isPending k = true ∧ e = outcome := by
    intro j e hx
    rw [Cell.getElem?_settleWaiter, Option.map_eq_some_iff] at hx
    obtain ⟨y, hy, eq⟩ := hx
    split at eq
    · next waits =>
        subst eq
        exact .inr ⟨waits.1, Cell.isPending_eq.2 ⟨y, hy, waits.2⟩, Option.some.inj known⟩
    · exact .inl (eq ▸ hy)
  cases o with
  | tick =>
    have hx' : c.step.cell.waiters[k]? = some x := hx
    cases next : c.loop.next? with
    | none =>
      rw [step_of_none next] at hx'
      exact .inl hx'
    | some due =>
      obtain ⟨job, loop⟩ := due
      rw [step_eq next] at hx'
      cases job with
      | run =>
        simp only [perform] at hx'
        split at hx'
        · exact .inl hx'
        · split at hx' <;> exact .inl hx'
      | tell j =>
        simp only [perform, Cell.tell] at hx'
        split at hx'
        · next e stage =>
            rcases settled j e hx' with same | ⟨-, -, rfl⟩
            · exact .inl same
            · exact .inr (.inr stage)
        · exact .inl hx'
  | start script =>
    by_cases fresh : c.cell.stage = .unstarted
    · rw [start_unstarted fresh] at hx
      exact .inl hx
    · rw [start_again fresh] at hx
      exact .inl hx
  | startWithoutLoop script => exact .inl hx
  | attach =>
    by_cases fresh : c.cell.stage = .unstarted
    · rw [attach_unstarted fresh] at hx
      exact .inl hx
    · rw [attach_started fresh] at hx
      rcases Nat.lt_or_ge k c.cell.waiters.length with there | new
      · exact .inl ((List.getElem?_append_left there).symm.trans hx)
      · have last := (List.getElem?_append_right new).symm.trans hx
        rw [List.mem_singleton.1 (List.mem_of_getElem? last)] at known
        exact .inr (.inr (Cell.ending?_eq_some.1 known))
  | giveUp j =>
    rcases settled j .cancelled hx with same | ⟨rfl, pending, -⟩
    · exact .inl same
    · exact .inr (.inl (by simp [dropped, pending]))
  | release gate => exact .inl hx

theorem Served.op (h : c.Served gone) (course : c.Course first) (o : Op ε φ α) :
    (c.op o).Served (gone ++ c.dropped o) := by
  constructor
  · intro k hk
    rcases List.mem_append.1 hk with hk | hk
    · obtain ⟨x, hx, cancelled⟩ := h.left k hk
      exact ⟨x, getElem?_op_of_outcome hx cancelled o, cancelled⟩
    · cases o with
      | giveUp j =>
        simp only [dropped] at hk
        split at hk
        · next pending =>
            obtain rfl := List.mem_singleton.1 hk
            obtain ⟨x, hx, none⟩ := Cell.isPending_eq.1 pending
            refine ⟨{ x with outcome := some .cancelled }, ?_, rfl⟩
            change (c.cell.settleWaiter k .cancelled).1.waiters[k]? = _
            rw [Cell.getElem?_settleWaiter, hx]
            simp [none]
        · cases hk
      | _ => cases hk
  · intro k x outcome hx hk known
    have ended : c.cell.stage = .ended outcome := by
      rw [List.mem_append, not_or] at hk
      rcases outcome_op o hx known with same | gaveUp | ended
      · exact h.stayed k x outcome same hk.1 known
      · exact absurd gaveUp hk.2
      · exact ended
    exact course.stays_ended ended [o]

theorem Served.run (h : c.Served gone) (course : c.Course first) (ops : List (Op ε φ α)) :
    ((system ε φ α).run c ops).Served (gone ++ gaveUp c ops) := by
  induction ops generalizing c gone first with
  | nil => simpa [gaveUp, System.run] using h
  | cons o rest ih =>
    have served := ih (h.op course o) (course.op o)
    rw [List.append_assoc] at served
    exact served

theorem served_run (ops : List (Op ε φ α)) :
    ((system ε φ α).run {} ops).Served (gaveUp {} ops) := by
  have fresh : ({} : Computation ε φ α).Course none := fresh_initial
  have nobody : ({} : Computation ε φ α).Served [] := ⟨by simp, by simp⟩
  exact nobody.run fresh ops

theorem prompt_run (ops : List (Op ε φ α)) : ((system ε φ α).run {} ops).Prompt := by
  rw [← System.after_keep]
  exact prompt_after _

/-- Once the computation has ended and nothing is due, everyone who did not give up has its
outcome. -/
theorem told_of_idle (ops : List (Op ε φ α)) {k : Nat} {x : Waiter Unit φ α} {e : Ending φ α}
    (hx : ((system ε φ α).run {} ops).cell.waiters[k]? = some x) (hk : k ∉ gaveUp {} ops)
    (ended : ((system ε φ α).run {} ops).cell.stage = .ended e)
    (idle : ((system ε φ α).run {} ops).loop.idle = true) : x.outcome = some e := by
  cases known : x.outcome with
  | none =>
    have due := prompt_run ops e ended k x hx known
    rw [List.isEmpty_iff.1 idle] at due
    cases due
  | some outcome =>
    have ended' := (served_run ops).stayed k x outcome hx hk known
    rw [ended] at ended'
    cases ended'
    rfl

/-! ## Settling -/

theorem run_of_idle (h : c.loop.idle = true) (n : Nat) : run n c = c := by
  cases n with
  | zero => rfl
  | succ n => rw [run, if_pos h]

theorem run_eq_ticks (n : Nat) (c : Computation ε φ α) :
    ∃ ticks, run n c = (system ε φ α).run c (List.replicate ticks .tick) := by
  induction n generalizing c with
  | zero => exact ⟨0, rfl⟩
  | succ n ih =>
    rw [run]
    split
    · exact ⟨0, rfl⟩
    · obtain ⟨ticks, eq⟩ := ih c.step
      exact ⟨ticks + 1, eq⟩

/-- Each job tells somebody, until none is left. -/
theorem Over.idle_run (h : c.Over s) {n : Nat} (few : c.loop.ready.length ≤ n) :
    (run n c).loop.idle = true := by
  induction n generalizing c with
  | zero => exact List.isEmpty_iff.2 (List.length_eq_zero_iff.1 (Nat.le_zero.1 few))
  | succ n ih =>
    rw [run]
    split
    · assumption
    · refine ih h.step.1 ?_
      rw [h.step.2, List.length_tail]
      omega

/-- **Settling settles**: the script runs once at most, and everyone is told. -/
theorem Course.idle_settle (h : c.Course first) : c.settle.loop.idle = true := by
  unfold settle
  cases first with
  | none =>
    have idle : c.loop.idle = true := by simp [Loop.idle, h.ready]
    rwa [run_of_idle idle]
  | some s =>
    rcases h with h | h | h
    · have due : c.loop.idle = false := by simp [Loop.idle, h.ready]
      rw [Computation.run, due, if_neg (by simp)]
      rcases h.step with held | ⟨hover, few⟩
      · have idle : c.step.loop.idle = true := by simp [Loop.idle, held.ready]
        rwa [run_of_idle idle]
      · exact hover.idle_run (by omega)
    · have idle : c.loop.idle = true := by simp [Loop.idle, h.ready]
      rwa [run_of_idle idle]
    · exact h.idle_run (by omega)

/-- **A cell is assigned once**, whatever is done to it and in whatever order. A start is refused
once something has started, and always without a loop; a wait is refused before the start. What is
refused closes the script that it was given and changes nothing else, and nothing else closes a
script. Of all scripts only the first that was given under a loop runs, and it runs once; every other
one that was handed over is closed. The state moves from unstarted to in progress and on to done or
failed, and the ending stays. There is a result exactly where the cell is done, and a failure exactly
where it has failed. Whoever waits and does not give up has the ending of the script or no outcome;
once nothing is due and the script has ended, it has that. Settling comes to a point where nothing is
due. -/
theorem single_assignment (ops : List (Op ε φ α)) :
    let c := (system ε φ α).run {} ops
    ((∀ script, c.refusal? (.start script) =
          if c.cell.state = .unstarted then none else some .alreadyStarted) ∧
        (∀ script, c.refusal? (.startWithoutLoop script) =
          some (if c.cell.state = .unstarted then .noLoop else .alreadyStarted)) ∧
        c.refusal? .attach = (if c.cell.state = .unstarted then some .notStarted else none) ∧
        (∀ o e, c.refusal? o = some e →
          c.op o = { c with closed := c.closed ++ o.offered?.toList }) ∧
        ∀ o, c.refusal? o = none → (c.op o).closed = c.closed) ∧
      (c.Course (ops.findSome? Op.start?) ∧
        (ops.filterMap Op.offered?).Perm ((ops.findSome? Op.start?).toList ++ c.closed)) ∧
      (∀ o, CellState.Moves c.cell.state o (c.op o).cell.state) ∧
      (∀ e later, c.cell.stage = .ended e →
        ((system ε φ α).run {} (ops ++ later)).cell.stage = .ended e) ∧
      (c.cell.result?.isSome = true ↔ c.cell.state = .done) ∧
      (c.cell.failure?.isSome = true ↔ c.cell.state = .failed) ∧
      (∀ e, c.cell.stage = .ended e → c.cell.result? = e.value? ∧
        ∀ failure, e.failure? = some failure → c.cell.failure? = some e) ∧
      ((c.refusal? .attach = none → (c.op .attach).cell.waiters[c.cell.waiters.length]? =
          some { outcome := c.cell.ending? }) ∧
        (∀ o, c.cell.Joined (c.op o).cell) ∧
        ∀ k x, c.cell.waiters[k]? = some x →
          (k ∈ gaveUp {} ops → x.outcome = some .cancelled) ∧
          (k ∉ gaveUp {} ops →
            (∀ outcome, x.outcome = some outcome → c.cell.stage = .ended outcome) ∧
            ∀ e, c.cell.stage = .ended e → c.loop.idle = true → x.outcome = some e)) ∧
      c.settle.loop.idle = true ∧
        ∃ ticks, c.settle = (system ε φ α).run {} (ops ++ List.replicate ticks .tick) := by
  intro c
  have course : c.Course (ops.findSome? Op.start?) := course_run ops
  have served : c.Served (gaveUp {} ops) := served_run ops
  refine ⟨⟨c.refusal?_start, c.refusal?_startWithoutLoop, c.refusal?_attach,
    fun o e => op_of_refused, fun o => closed_op⟩, ⟨course, offered_perm ops⟩, course.moves,
    fun e later ended => ?_, c.cell.result?_isSome, c.cell.failure?_isSome, fun e ended => ?_,
    ⟨fun accepted => ?_, c.joined_op, fun k x hx => ⟨fun hk => ?_, fun hk =>
      ⟨fun outcome known => ?_, fun e ended idle => told_of_idle ops hx hk ended idle⟩⟩⟩,
    course.idle_settle, ?_⟩
  · rw [System.run_append]
    exact course.stays_ended ended later
  · cases e <;> simp [Cell.result?, Cell.failure?, ended, Ending.value?]
  · rw [refusal?_attach] at accepted
    have started : c.cell.stage ≠ .unstarted := by
      intro fresh
      rw [if_pos (Cell.state_eq_unstarted.2 fresh)] at accepted
      cases accepted
    rw [attach_started started]
    simp [Cell.join]
  · obtain ⟨y, hy, cancelled⟩ := served.left k hk
    rw [hx] at hy
    cases hy
    exact cancelled
  · exact served.stayed k x outcome hx hk known
  · obtain ⟨ticks, eq⟩ := run_eq_ticks (c.loop.ready.length + c.cell.waiters.length + 1) c
    exact ⟨ticks, eq.trans (System.run_append _ _ _).symm⟩

/-- A script is handed over where no loop is running and is closed; a second one starts and is held
at a gate, while a third is refused and closed. Of two who wait one gives up; another comes after
the end, when it is too late to give up. -/
theorem single_assignment_held :
    let early : Script String Unit Nat := .emit "early" (.finish .cancelled)
    let held : Script String Unit Nat := .hold "g" [] (.emit "first" (.finish (.returned 7)))
    let late : Script String Unit Nat := .emit "second" (.finish (.raised ()))
    let ops := [.attach, .startWithoutLoop early, .start held, .start late, .attach, .attach,
      .giveUp 0, .tick, .release "g", .tick, .tick, .attach, .giveUp 2]
    let c := (system String Unit Nat).run {} ops
    c.Over held ∧ c.events = ["first"] ∧ [early, late].Perm c.closed ∧
      c.cell.waiters.map (·.outcome) =
        [some .cancelled, some (.returned 7), some (.returned 7)] := by
  intro early held late ops c
  obtain ⟨-, ⟨course, handed⟩, -, -, -, -, -, ⟨-, -, told⟩, -⟩ := single_assignment ops
  have ended : c.cell.stage = .ended (.returned 7) := by decide
  have idle : c.loop.idle = true := by decide
  have hover : c.Over held := by
    rcases course with due | held | hover
    · exact absurd (due.stage.symm.trans ended) (by simp)
    · exact absurd (held.stage.symm.trans ended) (by simp)
    · exact hover
  have closed : (held :: [early, late]).Perm (held :: c.closed) :=
    (List.Perm.swap early held [late]).trans handed
  have gone : gaveUp {} ops = [0] := by decide
  have waiters : c.cell.waiters.length = 3 := by decide
  obtain ⟨x, y, z, all⟩ := List.length_eq_three.1 waiters
  have first : x.outcome = some .cancelled :=
    (told 0 x (by simp [all, c])).1 (by rw [gone]; decide)
  have second : y.outcome = some (.returned 7) :=
    ((told 1 y (by simp [all, c])).2 (by rw [gone]; decide)).2 _ ended idle
  have third : z.outcome = some (.returned 7) :=
    ((told 2 z (by simp [all, c])).2 (by rw [gone]; decide)).2 _ ended idle
  refine ⟨hover, hover.events, (List.perm_cons held).1 closed, ?_⟩
  rw [all, List.map_cons, List.map_cons, List.map_cons, first, second, third]
  rfl

end Computation

end DepGraph
