import DepGraph.Proofs.Aftermath
import DepGraph.Proofs.Dropped
import DepGraph.Proofs.Stations

/-!
# No wake-up is lost

Between the answer to a call and those who wait for the file there are the turn of the specifier,
the hearing of its end, the waking of the resolution and the telling of each waiter. Whenever
nothing is due, none of these was missed.

* `World.HeldAt` — a call that was made for a file is held at a closed gate.
* `World.held_of_inProgress`, `World.inProgress_of_held` — with nothing due, a resolution is under
  way if and only if a call is held.
* `World.pending_iff` — and a waiter is pending if and only if the resolution is under way and the
  waiter was not cancelled.
* `World.no_lost_wakeup` — **both, in every run**; once the calls of a file have their answers, its
  resolution has ended and everyone who waits has an outcome.
-/

set_option autoImplicit false

namespace DepGraph.World

variable {env : Nat → Environment} {w : World} {id : FileId} {l : Lane}

/-- A call that was made for specifier `i` of a file is held at a gate: it was not cancelled, and
its answer waits for this gate, which is closed. -/
structure HeldAt (w : World) (env : Environment) (id : FileId) (i : Nat) (gate : Gate) : Prop where
  call : ∃ stage call, .called ⟨id, i, stage⟩ call ∈ w.log ∧
    .cancelled ⟨id, i, stage⟩ call ∉ w.log ∧ gate ∈ env.gatesOf ⟨id, i, stage⟩ call
  closed : w.loop.isOpen gate = false

/-! ## The resolution -/

/-- With nothing due at all, nothing is due to a file. -/
theorem ready_of_settled (hl : w.lane? id = some l) (hsettled : w.settled = true) :
    l.loop.ready = [] := by
  have hready : w.loop.ready = [] := by simpa [settled, Loop.idle] using hsettled
  rw [(lane?_eq_some.mp hl).2.1]
  simp [Loop.select, hready]

/-- **With nothing due, a resolution under way is held up**: a call is held at a closed gate, and
the specifier that made it waits there. -/
theorem held_of_inProgress (options : Options) (libName : String) (registries : Nat → Registry)
    (actions : List Action) (hw : w = (initial options libName registries).run env actions)
    (hl : w.lane? id = some l) (hsettled : w.settled = true)
    (hs : l.record.cell.stage = .inProgress) :
    ∃ work i gate, l.record.work = some work ∧ w.HeldAt (env work.resolver) id i gate ∧
      (gate, .file id (.join (.turn i))) ∈ w.loop.waiting := by
  obtain ⟨-, hloop, hlog⟩ := lane?_eq_some.mp hl
  obtain ⟨resolver, occurrences, join, events, hposted⟩ :=
    attentive_run options libName registries actions (hw ▸ hl) hs
  obtain ⟨i, stage, call, gate, hwaits, hclosed, hcalled, hnot, hgate⟩ :=
    hposted.held (ready_of_settled hl hsettled)
  rw [hlog, Event.called_mem_filter] at hcalled
  rw [hlog, Event.cancelled_mem_filter] at hnot
  rw [hloop] at hwaits hclosed
  refine ⟨_, i, gate, hposted.work, ⟨⟨stage, call, hcalled, hnot, hgate⟩, hclosed⟩, ?_⟩
  exact (Loop.mem_waiting_select (Job.of?_unwraps id)).mp hwaits

/-- With nothing due, a call that is held belongs to a resolution under way: once a resolution has
ended, every call was answered or cancelled. -/
theorem inProgress_of_held (options : Options) (libName : String) (registries : Nat → Registry)
    (actions : List Action) (hw : w = (initial options libName registries).run env actions)
    (hl : w.lane? id = some l) (hsettled : w.settled = true) {work : Work}
    (hwork : l.record.work = some work) {i : Nat} {gate : Gate}
    (hheld : w.HeldAt (env work.resolver) id i gate) : l.record.cell.stage = .inProgress := by
  obtain ⟨⟨stage, call, hcalled, hnot, hgate⟩, hclosed⟩ := hheld
  obtain ⟨-, hloop, hlog⟩ := lane?_eq_some.mp hl
  rcases heeded_run options libName registries actions (hw ▸ hl) with
    hidle | ⟨resolver, occurrences, hunderway | ⟨ending, hended⟩, hattended⟩
  · rw [hidle.work] at hwork
    cases hwork
  · exact hunderway.stage
  · exfalso
    obtain ⟨join, events, verdict, registry, hwork', hover, -⟩ := hended.finished
    obtain rfl := Option.some.inj (hwork.symm.trans hwork')
    have hready : l.joint.ready = [] := by
      simp [Lane.joint, Loop.select, ready_of_settled hl hsettled]
    have hall := hattended.ended_of_idle hwork hover.accounts hended.stage hready
    rw [← Event.called_mem_filter, ← hlog] at hcalled
    rw [← Event.cancelled_mem_filter, ← hlog] at hnot
    rcases hattended.answered_or_cancelled hwork hall hcalled with hcancelled | hopen
    · exact hnot hcancelled
    · have hgateOpen := hopen gate hgate
      rw [hloop, Loop.isOpen_select, hclosed] at hgateOpen
      cases hgateOpen

/-! ## The waiters -/

/-- **With nothing due, a waiter is pending** if and only if the resolution is under way and the
waiter was not cancelled. -/
theorem pending_iff (options : Options) (libName : String) (registries : Nat → Registry)
    (actions : List Action) (hw : w = (initial options libName registries).run env actions)
    (hl : w.lane? id = some l) (hsettled : w.settled = true) {k : Nat}
    {x : Waiter WalkRef Fault Dependencies} (hx : l.record.cell.waiters[k]? = some x) :
    x.outcome = none ↔ ¬(initial options libName registries).Dropped env actions id k ∧
      l.record.cell.stage = .inProgress := by
  constructor
  · intro hnone
    refine ⟨fun hdropped => ?_, ?_⟩
    · obtain ⟨y, o, hy, ho⟩ :=
        settled_of_dropped options libName registries actions (hw ▸ hl) hdropped
      obtain rfl := Option.some.inj (hx.symm.trans hy)
      rw [hnone] at ho
      cases ho
    · rcases lawful_run options libName registries actions (hw ▸ hl) with
        hidle | ⟨resolver, occurrences, hunderway | ⟨ending, hended⟩⟩
      · rw [hidle.waiters] at hx
        cases hx
      · exact hunderway.stage
      · -- Whoever has no outcome by then is about to be told.
        have hmem := hended.tells k x hx hnone
        rw [ready_of_settled hl hsettled] at hmem
        cases hmem
  · rintro ⟨hnot, hs⟩
    cases ho : x.outcome with
    | none => rfl
    | some o =>
      rcases explained_run options libName registries actions (hw ▸ hl) k x o hx ho with
        hended | ⟨-, hdropped⟩
      · rw [hs] at hended
        cases hended
      · exact absurd hdropped hnot

/-- **No wake-up is lost.** Whenever nothing is due: a resolution is under way if and only if at
least one call that was made for the file is held at a closed gate, and then a specifier waits
there; and a waiter is pending if and only if it was not cancelled and the resolution is under way.
In particular, once all gates are open that calls made for the file wait for, a resolution that was
started is done or has failed, and everyone who waits has its outcome, or was cancelled. -/
theorem no_lost_wakeup (env : Nat → Environment) (options : Options) (libName : String)
    (registries : Nat → Registry) (actions : List Action) {id : FileId} {r : Record}
    (hr : ((initial options libName registries).run env actions).store.record? id = some r)
    (hsettled : ((initial options libName registries).run env actions).settled = true) :
    let start := initial options libName registries
    let w := start.run env actions
    (r.cell.state = .inProgress ↔
      ∃ work i gate, r.work = some work ∧ w.HeldAt (env work.resolver) id i gate) ∧
    (r.cell.state = .inProgress → ∃ work i gate, r.work = some work ∧
      w.HeldAt (env work.resolver) id i gate ∧
      (gate, .file id (.join (.turn i))) ∈ w.loop.waiting) ∧
    (∀ k x, r.cell.waiters[k]? = some x →
      (x.outcome = none ↔ ¬start.Dropped env actions id k ∧ r.cell.state = .inProgress)) ∧
    ((∀ work i stage call gate, r.work = some work → .called ⟨id, i, stage⟩ call ∈ w.log →
        gate ∈ (env work.resolver).gatesOf ⟨id, i, stage⟩ call → w.loop.isOpen gate = true) →
      r.cell.state ≠ .unstarted →
      (r.cell.state = .done ∨ r.cell.state = .failed) ∧
      ∀ k x, r.cell.waiters[k]? = some x → ∃ o, x.outcome = some o ∧
        (r.cell.stage = .ended o ∨ o = .cancelled ∧ start.Dropped env actions id k)) := by
  intro start w
  have hl := lane?_of_record? hr
  have hheld := held_of_inProgress options libName registries actions rfl hl hsettled
  have hunder : (∃ work i gate, r.work = some work ∧ w.HeldAt (env work.resolver) id i gate) →
      r.cell.stage = .inProgress := fun ⟨work, i, gate, hwork, hat⟩ =>
    inProgress_of_held options libName registries actions rfl hl hsettled hwork hat
  have hpending : ∀ k x, r.cell.waiters[k]? = some x →
      (x.outcome = none ↔ ¬start.Dropped env actions id k ∧ r.cell.stage = .inProgress) :=
    fun k x hx => pending_iff options libName registries actions rfl hl hsettled hx
  rw [Cell.state_eq_inProgress]
  refine ⟨⟨fun hs => ?_, hunder⟩, hheld, hpending, fun hopen hstarted => ?_⟩
  · obtain ⟨work, i, gate, hwork, hat, -⟩ := hheld hs
    exact ⟨work, i, gate, hwork, hat⟩
  · have hnot : r.cell.stage ≠ .inProgress := by
      intro hs
      obtain ⟨work, i, gate, hwork, ⟨⟨stage, call, hcalled, -, hgate⟩, hclosed⟩, -⟩ := hheld hs
      rw [hopen work i stage call gate hwork hcalled hgate] at hclosed
      cases hclosed
    obtain ⟨ending, hs⟩ : ∃ ending, r.cell.stage = .ended ending := by
      cases hs : r.cell.stage with
      | unstarted => exact absurd (Cell.state_eq_unstarted.mpr hs) hstarted
      | inProgress => exact absurd hs hnot
      | ended ending => exact ⟨ending, rfl⟩
    refine ⟨by cases ending <;> simp [Cell.state, hs], fun k x hx => ?_⟩
    cases ho : x.outcome with
    | none => exact absurd ((hpending k x hx).mp ho).2 hnot
    | some o =>
      exact ⟨o, rfl, explained_run options libName registries actions hl k x o hx ho⟩

/-- A file is added and asked for twice, and the one who asked last gives up. -/
def impatience : List Action :=
  [.add "a" "", .resolve 0 "a", .resolve 0 "a", .giveUp ⟨"a", 0⟩ 1] ++ List.replicate 4 .tick

/-- With nothing due, a call of the file is held; the one who asked first is pending, the other was
cancelled. -/
theorem no_lost_wakeup_impatience :
    let start := initial {} defaultLibName fun _ => {}
    let w := start.run refusing impatience
    w.settled = true ∧ ∃ r, w.store.record? ⟨"a", 0⟩ = some r ∧
      (∃ work i gate, r.work = some work ∧
        w.HeldAt (refusing work.resolver) ⟨"a", 0⟩ i gate) ∧
      ¬start.Dropped refusing impatience ⟨"a", 0⟩ 0 ∧
      start.Dropped refusing impatience ⟨"a", 0⟩ 1 := by
  intro start w
  have hsettled : w.settled = true := by decide
  have hthere : (w.store.record? ⟨"a", 0⟩).map (·.cell) =
      some ⟨.inProgress, [{}, { outcome := some .cancelled }]⟩ := by decide +kernel
  obtain ⟨r, hr, hcell⟩ := Option.map_eq_some_iff.mp hthere
  obtain ⟨hstate, -, hwaiters, -⟩ :=
    no_lost_wakeup refusing {} defaultLibName (fun _ => {}) impatience hr hsettled
  rw [hcell] at hstate hwaiters
  refine ⟨hsettled, r, hr, hstate.mp rfl, ((hwaiters 0 _ rfl).mp rfl).1, ?_⟩
  by_contra hnot
  have hpending := (hwaiters 1 _ rfl).mpr ⟨hnot, rfl⟩
  cases hpending

end DepGraph.World
