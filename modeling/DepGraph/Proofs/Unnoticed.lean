import DepGraph.Proofs.Computations
import DepGraph.Proofs.LaterRequests
import DepGraph.Proofs.Refinement

/-!
# Nobody notices that a waiter has given up

Those who wait for a file, or for any computation, may give up at any time. That changes what they
come to have themselves, and nothing else: the run in which they go on to wait is the same.

* `World.without_cons` — waiters are left out one after the other.
* `World.blind` — a world does not notice whether a waiter has given up.
* `World.giveUp_pending`, `World.giveUp_settled` — what becomes of a waiter who gives up.
* `cancellations_unnoticed` — **a run and the same run without its cancellations**.
-/

set_option autoImplicit false

namespace DepGraph

open DepGraph.Numbering

variable {id other : FileId} {gone : List Nat} {k : Nat}

/-! ## One more is gone -/

theorem FileId.number_cons (hk : k ∉ gone) (other : FileId) (j : Nat) :
    id.number [rank gone k] other (id.number gone other j) = id.number (k :: gone) other j := by
  by_cases h : other = id
  · subst h
    simp [rank_cons hk]
  · simp [number_other h]

theorem Record.without_cons (hk : k ∉ gone) (r : Record) :
    (r.without gone).without [rank gone k] = r.without (k :: gone) := by
  simp only [without, Cell.without_cons hk]

theorem Walk.without_cons (hk : k ∉ gone) (x : Walk) :
    (x.without id gone).without id [rank gone k] = x.without id (k :: gone) := by
  have hphase : (x.phase.without id gone).without id [rank gone k] =
      x.phase.without id (k :: gone) := by
    cases x.phase <;> simp [Phase.without, FileId.number_cons hk]
  simp only [without, hphase]

theorem Job.without_cons (hk : k ∉ gone) (job : Job) :
    (job.without id gone).bind (Job.without id [rank gone k]) = job.without id (k :: gone) := by
  cases job with
  | walk j job => rfl
  | file other job =>
    cases job with
    | join job => rfl
    | tell j =>
      by_cases h : other = id
      · subst h
        by_cases hj : j ∈ gone
        · simp [without, hj]
        · by_cases hjk : j = k
          · subst hjk
            simp [without, hj]
          · have hne : rank gone j ≠ rank gone k := fun h => hjk (rank_inj hj hk h)
            simp [without, hj, hjk, hne, rank_cons hk]
      · simp [without, h, FileId.number_other h]

/-- A step as an action: whoever gives up is a waiter of the file. -/
def Step.action (id : FileId) : Step Action → Action
  | .keep a => a
  | .cancel k => .giveUp id k

namespace World

variable {w w' : World} {env : Nat → Environment}

theorem without_cons (hk : k ∉ gone) (w : World) :
    (w.without id gone).without id [rank gone k] = w.without id (k :: gone) := by
  simp only [without, Store.modify_modify, Record.without_cons hk, List.map_map,
    Loop.select_select, Job.without_cons hk, Function.comp_def, Walk.without_cons hk]

theorem without_of_mem (hk : k ∈ gone) (w : World) :
    w.without id (k :: gone) = w.without id gone := by
  have hrecord : Record.without (k :: gone) = Record.without gone := by
    funext r
    simp only [Record.without, Cell.without_of_mem hk]
  have hnumber : id.number (k :: gone) = id.number gone := by
    funext other j
    simp only [FileId.number, rank_of_mem hk]
  have hwalk : Walk.without id (k :: gone) = Walk.without id gone := by
    funext x
    simp only [Walk.without, Phase.without, hnumber]
  have hjob : Job.without id (k :: gone) = Job.without id gone := by
    funext job
    cases job with
    | walk j job => rfl
    | file other job =>
      cases job with
      | join job => rfl
      | tell j => by_cases hjk : j = k <;> simp [Job.without, hnumber, hjk, hk]
  simp only [without, hrecord, hwalk, hjob]

/-! ## Two worlds -/

/-- A world as a system where those who wait for a file may give up. -/
def system (env : Nat → Environment) (id : FileId) : System World Action where
  apply := apply env
  tick := .tick
  isTick := fun a => a = .tick
  giveUp := fun w k => w.giveUp id k
  isPending := fun w k => ((w.store.record? id).map fun r => r.cell.isPending k).getD false
  spare := fun gone w => w.loop.spare (Job.without id gone)
  idle := settled

theorem after_eq (w : World) (steps : List (Step Action)) :
    (system env id).after w steps = w.run env (steps.map (Step.action id)) := by
  induction steps generalizing w with
  | nil => rfl
  | cons x rest ih =>
    cases x with
    | keep a => exact ih _
    | cancel k => exact ih _

theorem isPending_eq : (system env id).isPending w k = true ↔
    ∃ r x, w.store.record? id = some r ∧ r.cell.waiters[k]? = some x ∧ x.outcome = none := by
  simp only [system]
  cases w.store.record? id with
  | none => simp
  | some r => simp [Cell.isPending_eq]

/-- A waiter that is not there, or has its outcome, cannot give up. -/
theorem giveUp_settled (env : Nat → Environment)
    (h : (system env id).isPending w k = false) : w.giveUp id k = w := by
  unfold giveUp
  cases hr : w.store.record? id with
  | none => rfl
  | some r =>
    have hcell : r.cell.isPending k = false := by simpa [system, hr] using h
    have hsame : (w.store.modify id fun r' => { r' with cell := r.cell }) =
        w.store.modify id fun r' => r' := Store.modify_congr hr rfl
    have hstore := hsame.trans (Store.modify_id w.store id)
    simp only [Cell.giveUp, Cell.settleWaiter_of_settled hcell, alert, modifyFile, hstore]

/-- Whoever gives up while it waits ends as cancelled, and nothing else changes. -/
theorem giveUp_pending {r : Record} {x : Waiter WalkRef Fault Dependencies}
    (hr : w.store.record? id = some r) (hx : r.cell.waiters[k]? = some x) (hnone : x.outcome = none)
    (hfree : x.listener = none) :
    w.giveUp id k = w.modifyFile id fun r => { r with
      cell := { r.cell with
        waiters := r.cell.waiters.set k { x with outcome := some .cancelled } } } := by
  have hstore : (w.store.modify id fun r' => { r' with cell := (r.cell.giveUp k).1 }) =
      w.store.modify id fun r => { r with
        cell := { r.cell with
          waiters := r.cell.waiters.set k { x with outcome := some .cancelled } } } := by
    refine Store.modify_congr hr ?_
    rw [Cell.giveUp, Cell.settleWaiter_of_pending hx hnone]
  have hlistener : (r.cell.giveUp k).2 = none := by
    rw [Cell.giveUp, Cell.settleWaiter_of_pending hx hnone, hfree]
  simp only [giveUp, hr, hlistener, alert, modifyFile, hstore]

/-- Two worlds that differ only in that those who are gone have given up in one of them. Nobody
listens to these. -/
structure Same (id : FileId) (gone : List Nat) (w w' : World) : Prop where
  without : w.without id gone = w'.without id gone
  tidy : w.Tidy
  tidy' : w'.Tidy
  left : ∀ k ∈ gone, w.store.Listens id k none
  right : ∀ k ∈ gone, w'.store.Listens id k none

theorem unheard_of_listens {s : Store} (h : ∀ k ∈ gone, s.Listens id k none) :
    Unheard id gone s := fun k hk _ hl => Store.listens_unique hl (h k hk)

theorem resolveWithoutLoop_waiter {env : Environment} {name : String} {listener : Option WalkRef}
    {p : FileId × Nat} (h : (w.resolveWithoutLoop env name listener).2 = .ok p) :
    p.2 = w.waiting p.1 := by
  rcases resolveWithoutLoop_spec env w name listener with
    ⟨_, h'⟩ | ⟨id', r, _, hr, ⟨_, _, _, h'⟩ | ⟨_, _, _, _, h'⟩ | ⟨_, h'⟩⟩ <;>
    rw [h'] at h <;> cases h
  exact (waiting_eq hr).symm

/-- Those who were there have smaller numbers than those who are yet to come. -/
theorem waiting_notMem (h : ∀ k ∈ gone, w.store.Listens id k none) {p : FileId × Nat}
    (hp : p.2 = w.waiting p.1) (hid : p.1 = id) : p.2 ∉ gone := by
  intro hmem
  have hlt := listens_lt (h _ hmem)
  rw [hp, hid] at hlt
  exact Nat.lt_irrefl _ hlt

/-- **An action** does the same without those who are gone, unless it concerns them only. -/
theorem apply_without (hw : w.Tidy) (h : ∀ k ∈ gone, w.store.Listens id k none) (a : Action) :
    (w.apply env a).without id gone =
      match a.without id gone w with
      | some a' => (w.without id gone).apply env a'
      | none => w.without id gone := by
  have hgrows := grows_apply env hw a
  have hheard := unheard_of_listens fun k hk => hgrows.listens (h k hk)
  cases ha : a.without id gone w with
  | none => exact without_apply_none (unheard_of_listens h) ha
  | some a' =>
    refine (without_apply hw hheard (fun resolver name _ p hp hid => ?_)
      (fun resolver name _ p hp hid => ?_) ha).symm
    · exact waiting_notMem h (resolveWithoutLoop_waiter hp) hid
    · exact waiting_notMem h (resolve_waiter hp) hid

namespace Same

theorem of_apply {a : Action} (h : Same id gone w w')
    (ha : (w.apply env a).without id gone = (w'.apply env a).without id gone) :
    Same id gone (w.apply env a) (w'.apply env a) :=
  ⟨ha, tidy_apply env h.tidy a, tidy_apply env h.tidy' a,
    fun k hk => (grows_apply env h.tidy a).listens (h.left k hk),
    fun k hk => (grows_apply env h.tidy' a).listens (h.right k hk)⟩

theorem act {a : Action} (h : Same id gone w w') (ha : a ≠ .tick) :
    Same id gone (w.apply env a) (w'.apply env a) := by
  have hsame : a.without id gone w = a.without id gone w' := by
    cases a with
    | tick => exact absurd rfl ha
    | _ => rfl
  refine h.of_apply ?_
  rw [apply_without h.tidy h.left, apply_without h.tidy' h.right, hsame, h.without]

/-- The job that is due first, where it does not tell one who is gone. -/
theorem without_tick (h : w.loop.spare (Job.without id gone) = 0) :
    Action.tick.without id gone w = some .tick := by
  simp only [Action.without]
  rcases Loop.spare_zero h with ⟨hnone, -⟩ | ⟨job, loop, job', hnext, hjob, -⟩
  · rw [hnone]
  · simp [hnext, hjob]

theorem tick (h : Same id gone w w') (hw : w.loop.spare (Job.without id gone) = 0)
    (hw' : w'.loop.spare (Job.without id gone) = 0) :
    Same id gone (w.apply env .tick) (w'.apply env .tick) := by
  refine h.of_apply ?_
  rw [apply_without h.tidy h.left, apply_without h.tidy' h.right, without_tick hw,
    without_tick hw', h.without]

/-- A job that tells one who is gone is of no consequence. -/
theorem tick_spare (env : Nat → Environment) {n : Nat} (hw : w.Tidy)
    (h : ∀ k ∈ gone, w.store.Listens id k none)
    (hn : w.loop.spare (Job.without id gone) = n + 1) :
    (w.apply env .tick).without id gone = w.without id gone ∧
      (w.apply env .tick).loop.spare (Job.without id gone) = n := by
  obtain ⟨job, loop, hnext, hjob, hloop, hspare⟩ := Loop.spare_succ hn
  refine ⟨?_, ?_⟩
  · have hnone : Action.tick.without id gone w = none := by
      simp [Action.without, hnext, hjob]
    rw [apply_without hw h, hnone]
  · obtain ⟨k, hk, rfl⟩ := Job.without_eq_none hjob
    have hheard : Unheard id gone ({ w with loop } : World).store := unheard_of_listens h
    have hpopped : (w.apply env .tick).loop = loop := by
      simp only [apply, World.tick, hnext, perform, loop_performFile_tell hheard hk]
    rw [hpopped, hspare]

/-- The record of the file is the same in both, but for those who are gone. -/
theorem record (h : Same id gone w w') {r : Record} (hr : w.store.record? id = some r) :
    ∃ r', w'.store.record? id = some r' ∧ r.without gone = r'.without gone := by
  have hsame : (w.without id gone).store.record? id = (w'.without id gone).store.record? id :=
    congrArg (·.store.record? id) h.without
  rw [record?_without, record?_without, hr, Option.map_some, Record.spared_self] at hsame
  obtain ⟨r', hr', hrest⟩ := Option.map_eq_some_iff.mp hsame.symm
  rw [Record.spared_self] at hrest
  exact ⟨r', hr', hrest.symm⟩

/-- One more gives up in one of the worlds. -/
theorem giveUp (h : Same id gone w w') (hk : (system env id).isPending w k = true)
    (hfree : w.store.Listens id k none) : Same id (k :: gone) (w.giveUp id k) w' := by
  have hleft : ∀ j ∈ k :: gone, w.store.Listens id j none := by
    intro j hj
    rcases List.mem_cons.mp hj with rfl | hj
    · exact hfree
    · exact h.left j hj
  refine ⟨?_, tidy_apply env h.tidy (.giveUp id k), h.tidy', fun j hj => ?_, ?_⟩
  · rw [without_giveUp_of_mem (unheard_of_listens hleft) List.mem_cons_self]
    by_cases hmem : k ∈ gone
    · rw [without_of_mem hmem, without_of_mem hmem, h.without]
    · rw [← without_cons hmem, ← without_cons hmem, h.without]
  · exact (grows_giveUp w id k).listens (hleft j hj)
  · intro j hj
    rcases List.mem_cons.mp hj with rfl | hj
    · by_cases hmem : j ∈ gone
      · exact h.right j hmem
      · obtain ⟨r, x, hr, hx, hlistener⟩ := hfree
        obtain ⟨r', hr', hsame⟩ := h.record hr
        have hcell : r.cell.without gone = r'.cell.without gone := congrArg (·.cell) hsame
        exact ⟨r', x, hr', (Cell.getElem?_of_without hcell hmem).symm.trans hx, hlistener⟩
    · exact h.right j hj

end Same

/-- Nobody listens to a waiter of the file. -/
def Free (id : FileId) (w : World) (k : Nat) : Prop :=
  ∀ listener, w.store.Listens id k listener → listener = none

/-- **A world does not notice whether a waiter has given up**, if nobody listens to it. -/
theorem blind (env : Nat → Environment) (id : FileId) :
    (system env id).Blind (Free id) (Same id) where
  tick_eq {a} ha := by simpa [system] using ha
  act h ha := h.act (by simpa [system] using ha)
  tick h hw hw' := h.tick hw hw'
  left {gone w w'} h hw := by
    obtain ⟨n, hn⟩ := Nat.exists_eq_succ_of_ne_zero hw
    obtain ⟨hsame, -⟩ := Same.tick_spare env h.tidy h.left hn
    exact ⟨hsame.trans h.without, tidy_apply env h.tidy .tick, h.tidy',
      fun k hk => (grows_apply env h.tidy .tick).listens (h.left k hk), h.right⟩
  right {gone w w' n} h hn := by
    obtain ⟨hsame, hspare⟩ := Same.tick_spare env h.tidy' h.right hn
    exact ⟨⟨h.without.trans hsame.symm, h.tidy, tidy_apply env h.tidy' .tick, h.left,
      fun k hk => (grows_apply env h.tidy' .tick).listens (h.right k hk)⟩, hspare⟩
  giveUp {gone w w' k} h hk hfree := by
    obtain ⟨r, x, hr, hx, -⟩ := isPending_eq.mp hk
    have hlistens : w.store.Listens id k x.listener := ⟨r, x, hr, hx, rfl⟩
    have hnone := hfree _ hlistens
    rw [hnone] at hlistens
    exact h.giveUp hk hlistens
  stays {w k} hk := giveUp_settled env hk
  free_of_after {gone w w' steps k} h hfree := by
    intro listener hl
    refine hfree listener ?_
    rw [after_eq]
    exact (grows_run env h.tidy _).listens hl
  idle {gone w w'} h hidle hspare := by
    refine Loop.idle_of_spare hspare ?_
    have hloop : w.loop.select (Job.without id gone) = w'.loop.select (Job.without id gone) :=
      congrArg (·.loop) h.without
    rw [← hloop]
    have hready : w.loop.ready = [] := by simpa [system, settled, Loop.idle] using hidle
    simp [Loop.idle, Loop.select, hready]
  tick_idle {w} hidle := by
    have hready : w.loop.ready = [] := by simpa [system, settled, Loop.idle] using hidle
    simp [system, apply, tick, Loop.next?, hready]

/-- Two worlds agree but for the outcomes of those who are gone. -/
structure Agree (id : FileId) (gone : List Nat) (w w' : World) : Prop where
  log : w'.log = w.log
  record : ∀ r, w.store.record? id = some r → ∃ r', w'.store.record? id = some r' ∧
    r.cell.Agree gone r'.cell ∧ r'.dependencies = r.dependencies ∧ r'.work = r.work
  rest : w'.without id gone = w.without id gone

theorem Same.agree (h : Same id gone w w') : w.Agree id gone w' := by
  refine ⟨(congrArg (·.log) h.without).symm, fun r hr => ?_, h.without.symm⟩
  obtain ⟨r', hr', hsame⟩ := h.record hr
  refine ⟨r', hr', Cell.agree_of_without (congrArg (·.cell) hsame) (fun k hk => ?_) fun k hk => ?_,
    (congrArg (·.dependencies) hsame).symm, (congrArg (·.work) hsame).symm⟩
  · exact waiting_eq hr ▸ listens_lt (h.left k hk)
  · exact waiting_eq hr' ▸ listens_lt (h.right k hk)

theorem same_self (hw : w.Tidy) : Same id [] w w := ⟨rfl, hw, hw, by simp, by simp⟩

/-- Once a resolution has ended and nothing is due, nobody is left to give up. -/
theorem giveUp_ended (options : Options) (libName : String) (registries : Nat → Registry)
    (actions : List Action) {r : Record} {ending : Ending Fault Dependencies}
    (hr : ((initial options libName registries).run env actions).store.record? id = some r)
    (hs : r.cell.stage = .ended ending)
    (hsettled : ((initial options libName registries).run env actions).settled = true) (k : Nat) :
    ((initial options libName registries).run env actions).giveUp id k =
      (initial options libName registries).run env actions := by
  have hlawful := lawful_run options libName registries actions (lane?_of_record? hr)
  obtain ⟨resolver, occurrences, hclosed⟩ := hlawful.closed_of_ended hs
  refine giveUp_settled env (Bool.eq_false_iff.mpr fun hk => ?_)
  obtain ⟨r', x, hr', hx, hnone⟩ := isPending_eq.mp hk
  obtain rfl := Option.some.inj (hr.symm.trans hr')
  have hmem := (Loop.mem_select (Job.of?_unwraps id)).mp (hclosed.tells k x hx hnone)
  have hready : ((initial options libName registries).run env actions).loop.ready = [] := by
    simpa [settled, Loop.idle] using hsettled
  rw [hready] at hmem
  cases hmem

end World

/-- **Cancelling waiters is invisible to the computation**, of a cell and of a file. In every run
those who wait give up whenever they like, and the run without these cancellations agrees with it
after every step: the computation has come equally far or has ended in the same way, the same was
recorded, and everyone else has the same outcome. Whoever gives up was still waiting, and ends as
cancelled; nothing else changes. Whoever has an outcome cannot give up, and once the computation has
ended and nothing is due, everyone has one. The waiters of a file are those that somebody has asked
for: those of a walk wait together, and give up with it. -/
theorem cancellations_unnoticed (ε φ α : Type) (env : Nat → Environment) (options : Options)
    (libName : String) (registries : Nat → Registry) (id : FileId) :
    ((Computation.system ε φ α).Unnoticed {} (fun _ _ => True) Computation.Agree ∧
      ∀ steps k, let c := (Computation.system ε φ α).after {} steps
        (∀ x, c.cell.waiters[k]? = some x → x.outcome = none →
          c.giveUp k = { c with cell := { c.cell with
            waiters := c.cell.waiters.set k { x with outcome := some .cancelled } } }) ∧
        ((∀ x, c.cell.waiters[k]? = some x → x.outcome ≠ none) → c.giveUp k = c) ∧
        ∀ ending, c.cell.stage = .ended ending → c.loop.idle = true → c.giveUp k = c) ∧
    (World.system env id).Unnoticed (World.initial options libName registries) (World.Free id)
        (World.Agree id) ∧
      ∀ actions k r, let w := (World.initial options libName registries).run env actions
        w.store.record? id = some r →
        (∀ x, r.cell.waiters[k]? = some x → x.outcome = none → x.listener = none →
          w.giveUp id k = w.modifyFile id fun r => { r with cell := { r.cell with
            waiters := r.cell.waiters.set k { x with outcome := some .cancelled } } }) ∧
        ((∀ x, r.cell.waiters[k]? = some x → x.outcome ≠ none) → w.giveUp id k = w) ∧
        ∀ ending, r.cell.stage = .ended ending → w.settled = true → w.giveUp id k = w := by
  refine ⟨⟨?_, fun steps k => ⟨fun x hx hnone => ?_, fun hsettled => ?_,
      fun ending hs hidle => ?_⟩⟩,
    ?_, fun actions k r hr => ⟨fun x hx hnone hfree => ?_, fun hsettled => ?_,
      fun ending hs hidle => ?_⟩⟩
  · exact Computation.blind.unnoticed (fun _ _ _ h => h.agree) (Computation.same_self _) rfl rfl
  · simp only [Computation.giveUp, Cell.giveUp, Cell.settleWaiter_of_pending hx hnone]
  · refine (@Computation.blind ε φ α).stays
      (Bool.eq_false_iff.mpr fun hk => ?_)
    obtain ⟨x, hx, hnone⟩ := Cell.isPending_eq.mp hk
    exact hsettled x hx hnone
  · exact (Computation.prompt_after steps).giveUp_eq hs hidle k
  · exact (World.blind env id).unnoticed (fun _ _ _ h => h.agree)
      (World.same_self (World.tidy_initial options libName registries)) rfl rfl
  · exact World.giveUp_pending hr hx hnone hfree
  · refine World.giveUp_settled env (Bool.eq_false_iff.mpr fun hk => ?_)
    obtain ⟨r', x, hr', hx, hnone⟩ := World.isPending_eq.mp hk
    obtain rfl := Option.some.inj (hr.symm.trans hr')
    exact hsettled x hx hnone
  · exact World.giveUp_ended options libName registries actions hr hs hidle k

/-- A file is asked for twice; the first who asked gives up before the answer that it needs. -/
def impatientRun : List (Step Action) :=
  [.keep (.add "a" ""), .keep (.resolve 0 "a"), .keep (.resolve 0 "a"), .keep .tick, .cancel 0,
    .keep .tick, .keep (.release "g")] ++ List.replicate 4 (.keep .tick)

/-- Who gave up would have been told after all, in a job of its own; the run agrees with that in
which it is. -/
theorem cancellations_unnoticed_impatient :
    let start := World.initial {} defaultLibName fun _ => {}
    World.Agree ⟨"a", 0⟩ [0]
      (start.run World.oneReference (impatientRun.map (Step.action ⟨"a", 0⟩)))
      (start.run World.oneReference (impatientRun.filterMap Step.kept? ++ [.tick])) := by
  intro start
  have hgone : (World.system World.oneReference ⟨"a", 0⟩).gone start impatientRun = [0] := by
    decide +kernel
  have hkept : (World.system World.oneReference ⟨"a", 0⟩).uncancelled [] start start impatientRun =
      impatientRun.filterMap Step.kept? ++ [.tick] := by decide +kernel
  obtain ⟨-, hfile, -⟩ := cancellations_unnoticed Event Fault Dependencies World.oneReference {}
    defaultLibName (fun _ => {}) ⟨"a", 0⟩
  have hagree := hfile.agree impatientRun fun k hk listener hl => ?_
  · rw [hgone, hkept, World.after_eq] at hagree
    exact hagree
  · -- Only the first gives up, whom nobody listens to.
    obtain rfl : k = 0 := by simpa [impatientRun] using hk
    obtain ⟨r, x, hr, hx, rfl⟩ := hl
    have hfirst : (((World.system World.oneReference ⟨"a", 0⟩).after start
        impatientRun).store.record? ⟨"a", 0⟩).bind (fun r => r.cell.waiters[0]?.map (·.listener)) =
          some none := by decide +kernel
    rw [hr, Option.bind_some, hx, Option.map_some] at hfirst
    exact Option.some.inj hfirst

end DepGraph
