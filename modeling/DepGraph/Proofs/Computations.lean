import DepGraph.Schedule.Computation
import DepGraph.Proofs.Cancelling
import DepGraph.Proofs.Numbering

/-!
# What is done to a cell and its computation

* `Computation.Op`, `Computation.after` — operations on a computation, in any order.
* `Computation.Prompt` — whoever has no outcome where the computation has ended is about to be told:
  `Computation.prompt_after` says that this is always so.
* `Computation.without` — a computation without some of its waiters.
* `Computation.blind` — a computation does not notice whether a waiter has given up.
-/

set_option autoImplicit false

namespace DepGraph

open DepGraph.Numbering

/-- A job, once some waiters are gone: nobody is left to be told. -/
def ComputationJob.without (gone : List Nat) : ComputationJob → Option ComputationJob
  | .run => some .run
  | .tell k => if k ∈ gone then none else some (.tell (rank gone k))

namespace Computation

variable {ε φ α : Type}

/-- What can be done to a computation. -/
inductive Op (ε φ α : Type) where
  /-- The job that is due first is carried out. -/
  | tick
  | start (script : Script ε φ α)
  /-- A start where no loop is running, which is refused. -/
  | startWithoutLoop (script : Script ε φ α)
  | attach
  | giveUp (waiter : Nat)
  | release (gate : Gate)

def Op.isTick : Op ε φ α → Bool
  | .tick => true
  | _ => false

/-- Does one operation. -/
def op (c : Computation ε φ α) : Op ε φ α → Computation ε φ α
  | .tick => c.step
  | .start script => (c.offer true script).1
  | .startWithoutLoop script => (c.offer false script).1
  | .attach => match c.attach with
    | .ok (c, _) => c
    | .error _ => c
  | .giveUp k => c.giveUp k
  | .release gate => c.release gate

/-- A computation as a system whose waiters may give up. -/
def system (ε φ α : Type) : System (Computation ε φ α) (Op ε φ α) where
  apply := op
  tick := .tick
  isTick := Op.isTick
  giveUp := giveUp
  isPending := fun c k => c.cell.isPending k
  spare := fun gone c => c.loop.spare (ComputationJob.without gone)
  idle := fun c => c.loop.idle

/-- A computation without some of its waiters. -/
def without (gone : List Nat) (c : Computation ε φ α) : Computation ε φ α :=
  { c with
    cell := c.cell.without gone
    loop := c.loop.select (ComputationJob.without gone) }

variable {c c' : Computation ε φ α} {gone : List Nat} {k : Nat}

/-! ## Those who wait -/

theorem step_eq {job : ComputationJob} {loop : Loop ComputationJob}
    (h : c.loop.next? = some (job, loop)) : c.step = { c with loop }.perform job := by
  simp [step, h]

theorem step_of_none (h : c.loop.next? = none) : c.step = c := by
  simp [step, h]

theorem start_unstarted (h : c.cell.stage = .unstarted) (script : Script ε φ α) :
    c.op (.start script) =
      { c with cell := c.cell.begun, script := some script, loop := c.loop.post .run } := by
  simp [op, offer, Cell.start, h]

theorem start_again (h : c.cell.stage ≠ .unstarted) (script : Script ε φ α) :
    c.op (.start script) = c.close script := by
  cases hs : c.cell.stage with
  | unstarted => exact absurd hs h
  | inProgress => simp [op, offer, Cell.start, hs]
  | ended ending => simp [op, offer, Cell.start, hs]

theorem attach_unstarted (h : c.cell.stage = .unstarted) : c.op .attach = c := by
  simp [op, attach, Cell.attach, h]

theorem attach_started (h : c.cell.stage ≠ .unstarted) :
    c.op .attach = { c with cell := c.cell.join none } := by
  simp [op, attach, Cell.attach_eq h]

/-- Whoever waits goes on to wait. -/
theorem joined_op (c : Computation ε φ α) (o : Op ε φ α) : c.cell.Joined (c.op o).cell := by
  cases o with
  | tick =>
    change c.cell.Joined c.step.cell
    cases hnext : c.loop.next? with
    | none => rw [step_of_none hnext]; exact .refl _
    | some p =>
      obtain ⟨job, loop⟩ := p
      rw [step_eq hnext]
      cases job with
      | tell k => exact Cell.joined_tell _ _
      | run =>
        simp only [perform]
        split
        · exact .refl _
        · split <;> exact .refl _
  | start script =>
    by_cases hs : c.cell.stage = .unstarted
    · rw [start_unstarted hs]
      exact .refl _
    · rw [start_again hs]
      exact .refl _
  | startWithoutLoop script => exact .refl _
  | attach =>
    by_cases hs : c.cell.stage = .unstarted
    · rw [attach_unstarted hs]
      exact .refl _
    · rw [attach_started hs]
      exact Cell.joined_join _ _
  | giveUp k => exact Cell.joined_settleWaiter _ _ _
  | release gate => exact .refl _

/-- Where the computation has ended, whoever has no outcome is about to be told. -/
def Prompt (c : Computation ε φ α) : Prop :=
  ∀ ending, c.cell.stage = .ended ending → ∀ (k : Nat) (x : Waiter Unit φ α),
    c.cell.waiters[k]? = some x → x.outcome = none → .tell k ∈ c.loop.ready

theorem Prompt.settleWaiter (h : c.Prompt) (o : Ending φ α) (loop : Loop ComputationJob)
    (hloop : ∀ j, j ≠ k → .tell j ∈ c.loop.ready → .tell j ∈ loop.ready) :
    ({ c with cell := (c.cell.settleWaiter k o).1, loop } : Computation ε φ α).Prompt := by
  intro ending hs j x hx hnone
  have hx' : (c.cell.settleWaiter k o).1.waiters[j]? = some x := hx
  rw [Cell.getElem?_settleWaiter, Option.map_eq_some_iff] at hx'
  obtain ⟨y, hy, rfl⟩ := hx'
  split at hnone
  · cases hnone
  · rename_i hother
    refine hloop j (fun hjk => hother ⟨hjk, hnone⟩) (h ending ?_ j y hy hnone)
    exact (Cell.stage_settleWaiter _ _ _).symm.trans hs

theorem Prompt.step (h : c.Prompt) : c.step.Prompt := by
  cases hnext : c.loop.next? with
  | none => rwa [step_of_none hnext]
  | some p =>
    obtain ⟨job, loop⟩ := p
    rw [step_eq hnext]
    have hready : c.loop.ready = job :: loop.ready := by
      unfold Loop.next? at hnext
      split at hnext <;> cases hnext
      assumption
    have hrest : ∀ j, job ≠ .tell j → .tell j ∈ c.loop.ready → .tell j ∈ loop.ready := by
      intro j hne hmem
      rw [hready] at hmem
      exact (List.mem_cons.mp hmem).resolve_left fun e => hne e.symm
    cases job with
    | tell k =>
      simp only [perform, Cell.tell]
      split
      · exact h.settleWaiter _ loop fun j hj => hrest j (by simpa using Ne.symm hj)
      · rename_i hs
        exact fun ending he => absurd he (hs ending)
    | run =>
      have hpopped : ({ c with loop } : Computation ε φ α).Prompt :=
        fun ending hs j x hx hnone => hrest j (by simp) (h ending hs j x hx hnone)
      simp only [perform]
      split
      · exact hpopped
      · split
        · exact hpopped
        · -- The computation ends: all who wait are to be told.
          intro ending hs j x hx hnone
          refine List.mem_append_right _ (List.mem_map_of_mem ?_)
          exact Cell.mem_pending hx hnone

theorem Prompt.giveUp (h : c.Prompt) (k : Nat) : (c.giveUp k).Prompt :=
  h.settleWaiter _ c.loop fun _ _ => id

/-- Every operation keeps to that. -/
theorem Prompt.op (h : c.Prompt) (o : Op ε φ α) : (c.op o).Prompt := by
  cases o with
  | tick => exact h.step
  | start script =>
    by_cases hs : c.cell.stage = .unstarted
    · rw [start_unstarted hs]
      exact fun ending he => by cases he
    · rwa [start_again hs]
  | startWithoutLoop script => exact h
  | attach =>
    by_cases hs : c.cell.stage = .unstarted
    · rwa [attach_unstarted hs]
    · rw [attach_started hs]
      intro ending he j x hx hnone
      rcases Nat.lt_or_ge j c.cell.waiters.length with hlt | hge
      · exact h ending he j x ((List.getElem?_append_left hlt).symm.trans hx) hnone
      · have hlast := (List.getElem?_append_right hge).symm.trans hx
        have hended : c.cell.ending? = some ending := Cell.ending?_eq_some.mpr he
        rw [List.mem_singleton.mp (List.mem_of_getElem? hlast), hended] at hnone
        cases hnone
  | giveUp k => exact h.giveUp k
  | release gate => exact fun ending hs j x hx hnone =>
      List.mem_append_left _ (h ending hs j x hx hnone)

theorem prompt_after (steps : List (Step (Op ε φ α))) :
    ((system ε φ α).after {} steps).Prompt := by
  have hstart : ({} : Computation ε φ α).Prompt := fun ending hs => by cases hs
  generalize ({} : Computation ε φ α) = c at hstart
  induction steps generalizing c with
  | nil => exact hstart
  | cons x rest ih =>
    cases x with
    | keep o => exact ih _ (hstart.op o)
    | cancel k => exact ih _ (hstart.giveUp k)

/-! ## Without some who wait -/

theorem without_giveUp (hk : k ∉ gone) :
    (c.giveUp k).without gone = (c.without gone).giveUp (rank gone k) := by
  simp [giveUp, without, Cell.giveUp, Cell.without_settleWaiter _ hk]

theorem without_giveUp_of_mem (hk : k ∈ gone) : (c.giveUp k).without gone = c.without gone := by
  simp [giveUp, without, Cell.giveUp, Cell.without_settleWaiter_of_mem _ hk]

/-- An operation, once some waiters are gone. -/
def Op.without (gone : List Nat) : Op ε φ α → Op ε φ α
  | .giveUp k => .giveUp (rank gone k)
  | o => o

/-- **An operation** does the same without those who are gone, if all of them were there before. -/
theorem without_op {o : Op ε φ α} (htick : o.isTick = false) (hgive : ∀ k ∈ gone, o ≠ .giveUp k)
    (hthere : ∀ k ∈ gone, k < c.cell.waiters.length) :
    (c.op o).without gone = (c.without gone).op (o.without gone) := by
  have hstage : (c.without gone).cell.stage = c.cell.stage := rfl
  cases o with
  | tick => cases htick
  | start script =>
    change _ = (c.without gone).op (.start script)
    by_cases hs : c.cell.stage = .unstarted
    · rw [start_unstarted hs, start_unstarted (hstage.trans hs)]
      simp [without, ComputationJob.without]
    · rw [start_again hs, start_again (hstage ▸ hs)]
      rfl
  | startWithoutLoop script => rfl
  | attach =>
    change _ = (c.without gone).op .attach
    by_cases hs : c.cell.stage = .unstarted
    · rw [attach_unstarted hs, attach_unstarted (hstage.trans hs)]
    · have hnew : c.cell.waiters.length ∉ gone := fun hmem => Nat.lt_irrefl _ (hthere _ hmem)
      rw [attach_started hs, attach_started (hstage ▸ hs)]
      simp [without, Cell.without_join, hnew]
  | giveUp k => exact without_giveUp fun hk => hgive k hk rfl
  | release gate => simp [op, release, Op.without, without, Loop.select_release]

/-- The jobs that tell those who wait. -/
theorem filterMap_tells (ks : List Nat) :
    (ks.map ComputationJob.tell).filterMap (ComputationJob.without gone) =
      ((ks.filter (· ∉ gone)).map (rank gone)).map .tell := by
  induction ks with
  | nil => rfl
  | cons k rest ih =>
    by_cases hk : k ∈ gone <;> simp [ComputationJob.without, hk, ih]

/-- **A job** is carried out as before. -/
theorem without_perform {job job' : ComputationJob} (h : job.without gone = some job') :
    (c.perform job).without gone = (c.without gone).perform job' := by
  cases job with
  | run =>
    obtain rfl := Option.some.inj h
    have hscript : (c.without gone).script = c.script := rfl
    simp only [perform, hscript]
    cases c.script with
    | none => rfl
    | some script =>
      have hopen : (c.without gone).loop.isOpen = c.loop.isOpen := rfl
      simp only [hopen]
      cases hadvance : script.advance c.loop.isOpen with
      | mk events pause =>
        cases pause with
        | held gate farewell rest =>
          simp [without, Loop.select_park_some (f := ComputationJob.without gone) h]
        | ended ending =>
          have htells := @filterMap_tells gone c.cell.pending
          simp only [without, Loop.select_postAll, htells, Cell.without_finish,
            Cell.without_pending]
  | tell k =>
    simp only [ComputationJob.without] at h
    split at h
    · cases h
    · rename_i hk
      cases h
      simp only [perform, without, Cell.tell, Cell.stage_without]
      split
      · simp [Cell.without_settleWaiter _ hk]
      · rfl

/-- **The job that is due first** is carried out as before, unless it tells one who is gone. -/
theorem without_step (h : c.loop.spare (ComputationJob.without gone) = 0) :
    c.step.without gone = (c.without gone).step := by
  rcases Loop.spare_zero h with ⟨hnone, hnone'⟩ | ⟨job, loop, job', hnext, hjob, hnext'⟩
  · rw [step_of_none hnone, step_of_none hnone']
  · rw [step_eq hnext, step_eq hnext', without_perform hjob]
    rfl

/-- A job that tells one who is gone is of no consequence. -/
theorem without_step_spare {n : Nat}
    (h : c.loop.spare (ComputationJob.without gone) = n + 1) :
    c.step.without gone = c.without gone ∧
      c.step.loop.spare (ComputationJob.without gone) = n := by
  obtain ⟨job, loop, hnext, hjob, hloop, hspare⟩ := Loop.spare_succ h
  rw [step_eq hnext]
  cases job with
  | run => cases hjob
  | tell k =>
    have hk : k ∈ gone := by
      by_contra hk
      simp [ComputationJob.without, hk] at hjob
    refine ⟨?_, hspare⟩
    simp only [perform, without, Cell.tell, hloop]
    split
    · rw [Cell.without_settleWaiter_of_mem _ hk]
    · rfl

end Computation

/-- A job that is left once one more is gone. -/
theorem ComputationJob.without_cons {gone : List Nat} {k : Nat} (hk : k ∉ gone)
    (job : ComputationJob) :
    (job.without gone).bind (ComputationJob.without [rank gone k]) = job.without (k :: gone) := by
  cases job with
  | run => rfl
  | tell j =>
    by_cases hj : j ∈ gone
    · simp [without, hj]
    · by_cases hjk : j = k
      · subst hjk
        simp [without, hj]
      · have hne : rank gone j ≠ rank gone k := fun h => hjk (rank_inj hj hk h)
        simp [without, hj, hjk, hne, rank_cons hk]

namespace Computation

variable {ε φ α : Type} {c c' : Computation ε φ α} {gone : List Nat} {k : Nat}

/-- One more is gone. -/
theorem without_cons (hk : k ∉ gone) (c : Computation ε φ α) :
    (c.without gone).without [rank gone k] = c.without (k :: gone) := by
  simp only [without, Cell.without_cons hk, Loop.select_select,
    ComputationJob.without_cons hk]

theorem without_of_mem (hk : k ∈ gone) (c : Computation ε φ α) :
    c.without (k :: gone) = c.without gone := by
  have hjob : ComputationJob.without (k :: gone) = ComputationJob.without gone := by
    funext job
    cases job with
    | run => rfl
    | tell j => by_cases hjk : j = k <;> simp [ComputationJob.without, rank_of_mem hk, hjk, hk]
  simp only [without, Cell.without_of_mem hk, hjob]

/-! ## Two computations -/

/-- Two computations that differ only in that those who are gone have given up in one of them. -/
structure Same (gone : List Nat) (c c' : Computation ε φ α) : Prop where
  without : c.without gone = c'.without gone
  left : ∀ k ∈ gone, k < c.cell.waiters.length
  right : ∀ k ∈ gone, k < c'.cell.waiters.length

theorem Same.op {o : Op ε φ α} (h : Same gone c c')
    (hop : (c.op o).without gone = (c'.op o).without gone) : Same gone (c.op o) (c'.op o) :=
  ⟨hop, fun k hk => Nat.lt_of_lt_of_le (h.left k hk) (joined_op c o).length_le,
    fun k hk => Nat.lt_of_lt_of_le (h.right k hk) (joined_op c' o).length_le⟩

/-- As many wait in both. -/
theorem Same.length_eq (h : Same gone c c') :
    c.cell.waiters.length = c'.cell.waiters.length :=
  (Cell.agree_of_without (congrArg (·.cell) h.without) h.left h.right).length.symm

theorem Same.act {o : Op ε φ α} (h : Same gone c c') (ho : o.isTick = false) :
    Same gone (c.op o) (c'.op o) := by
  refine h.op ?_
  by_cases hgive : ∃ k ∈ gone, o = .giveUp k
  · obtain ⟨k, hk, rfl⟩ := hgive
    exact (without_giveUp_of_mem hk).trans (h.without.trans (without_giveUp_of_mem hk).symm)
  · have hgive' : ∀ k ∈ gone, o ≠ .giveUp k := fun k hk heq => hgive ⟨k, hk, heq⟩
    rw [without_op ho hgive' h.left, without_op ho hgive' h.right, h.without]

theorem Same.giveUp (h : Same gone c c') (hk : c.cell.isPending k = true) :
    Same (k :: gone) (c.giveUp k) c' := by
  have hlt : k < c.cell.waiters.length := by
    by_contra hge
    simp [Cell.isPending, List.getElem?_eq_none (Nat.le_of_not_lt hge)] at hk
  refine ⟨?_, fun j hj => ?_, fun j hj => ?_⟩
  · rw [without_giveUp_of_mem List.mem_cons_self]
    by_cases hmem : k ∈ gone
    · rw [without_of_mem hmem, without_of_mem hmem, h.without]
    · rw [← without_cons hmem, ← without_cons hmem, h.without]
  · refine Nat.lt_of_lt_of_le ?_ (joined_op c (.giveUp k)).length_le
    rcases List.mem_cons.mp hj with rfl | hj
    · exact hlt
    · exact h.left j hj
  · rcases List.mem_cons.mp hj with rfl | hj
    · exact h.length_eq ▸ hlt
    · exact h.right j hj

/-- **A computation does not notice whether a waiter has given up.** -/
theorem blind : (system ε φ α).Blind (fun _ _ => True) Same where
  tick_eq {o} ho := by
    cases o <;> first | rfl | cases ho
  act h ho := h.act ho
  tick {gone c c'} h hc hc' := by
    refine h.op (o := .tick) ?_
    exact (without_step hc).trans ((congrArg step h.without).trans (without_step hc').symm)
  left {gone c c'} h hc := by
    obtain ⟨n, hn⟩ := Nat.exists_eq_succ_of_ne_zero hc
    obtain ⟨hsame, -⟩ := without_step_spare hn
    refine ⟨hsame.trans h.without, fun k hk => ?_, h.right⟩
    exact Nat.lt_of_lt_of_le (h.left k hk) (joined_op c .tick).length_le
  right {gone c c' n} h hn := by
    obtain ⟨hsame, hspare⟩ := without_step_spare hn
    refine ⟨⟨h.without.trans hsame.symm, h.left, fun k hk => ?_⟩, hspare⟩
    exact Nat.lt_of_lt_of_le (h.right k hk) (joined_op c' .tick).length_le
  giveUp h hk _ := h.giveUp hk
  stays {c k} hk := by
    change { c with cell := (c.cell.settleWaiter k .cancelled).1 } = c
    rw [Cell.settleWaiter_of_settled hk]
  free_of_after _ _ := trivial
  idle {gone c c'} h hidle hspare := by
    refine Loop.idle_of_spare hspare ?_
    have hloop : c.loop.select (ComputationJob.without gone) =
        c'.loop.select (ComputationJob.without gone) := congrArg (·.loop) h.without
    rw [← hloop]
    have hready : c.loop.ready = [] := by simpa [system, Loop.idle] using hidle
    simp [Loop.idle, Loop.select, hready]
  tick_idle {c} hidle := by
    have hready : c.loop.ready = [] := by simpa [system, Loop.idle] using hidle
    exact step_of_none (by simp [Loop.next?, hready])

/-- Two computations agree but for the outcomes of those who are gone. -/
structure Agree (gone : List Nat) (c c' : Computation ε φ α) : Prop where
  cell : c.cell.Agree gone c'.cell
  script : c'.script = c.script
  events : c'.events = c.events

theorem Same.agree (h : Same gone c c') : c.Agree gone c' :=
  ⟨Cell.agree_of_without (congrArg (·.cell) h.without) h.left h.right,
    (congrArg (·.script) h.without).symm, (congrArg (·.events) h.without).symm⟩

theorem same_self (c : Computation ε φ α) : Same [] c c := ⟨rfl, by simp, by simp⟩

/-- Once the computation has ended and nothing is due, nobody is left to give up. -/
theorem Prompt.giveUp_eq (h : c.Prompt) {ending : Ending φ α} (hs : c.cell.stage = .ended ending)
    (hidle : c.loop.idle = true) (k : Nat) : c.giveUp k = c := by
  have hready : c.loop.ready = [] := by simpa [Loop.idle] using hidle
  refine blind.stays (Bool.eq_false_iff.mpr fun hk => ?_)
  obtain ⟨x, hx, hnone⟩ := Cell.isPending_eq.mp hk
  have hmem := h ending hs k x hx hnone
  rw [hready] at hmem
  cases hmem

end Computation

end DepGraph
