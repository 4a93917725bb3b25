import DepGraph.Proofs.Registrations

/-!
# What is done to a lane

What is done to a file from outside, and a turn of it, on its lane alone. It does not matter to any
of this who listens to the waiters of the file.

* `Cell.heedless`, `Lane.heedless` — a cell and a lane, when it is forgotten who listens.
* `Lane.request`, `Lane.requestWithoutLoop` — requests for a file, on its lane.
* `Lane.deal`, `Lane.dealAll` — what actions do to the file that they concern, on its lane.
-/

set_option autoImplicit false

namespace DepGraph

/-! ## Who listens is forgotten -/

namespace Cell

variable {τ φ α : Type}

/-- The cell, when it is forgotten who listens to its waiters. -/
def heedless (c : Cell τ φ α) : Cell τ φ α :=
  { c with waiters := c.waiters.map fun x => { x with listener := none } }

@[simp] theorem stage_heedless (c : Cell τ φ α) : c.heedless.stage = c.stage := rfl

@[simp] theorem length_waiters_heedless (c : Cell τ φ α) :
    c.heedless.waiters.length = c.waiters.length := List.length_map _

@[simp] theorem heedless_heedless (c : Cell τ φ α) : c.heedless.heedless = c.heedless := by
  simp [heedless]

theorem pending_heedless (c : Cell τ φ α) : c.heedless.pending = c.pending := by
  simp only [pending, length_waiters_heedless]
  refine List.filter_congr fun k _ => ?_
  cases h : c.waiters[k]? <;> simp [isPending, heedless, h]

theorem join_heedless (c : Cell τ φ α) (listener : Option τ) :
    (c.join listener).heedless = c.heedless.join none := by
  simp [join, heedless, ending?]

theorem settleWaiter_heedless (c : Cell τ φ α) (k : Nat) (o : Ending φ α) :
    (c.settleWaiter k o).1.heedless = (c.heedless.settleWaiter k o).1 := by
  cases h : c.waiters[k]? with
  | none => simp [settleWaiter, heedless, h]
  | some x =>
    obtain ⟨listener, outcome⟩ := x
    cases outcome <;> simp [settleWaiter, heedless, h, List.map_set]

theorem tell_heedless (c : Cell τ φ α) (k : Nat) :
    (c.tell k).1.heedless = (c.heedless.tell k).1 := by
  cases h : c.stage with
  | ended ending =>
    have hstage : c.heedless.stage = .ended ending := h
    simp only [tell, h, hstage]
    exact settleWaiter_heedless c k ending
  | _ => simp [tell, h]

/-- Where nobody listens, nobody is to learn of anything. -/
theorem settleWaiter_of_heedless {c : Cell τ φ α} (h : c.heedless = c) (k : Nat) (o : Ending φ α) :
    (c.settleWaiter k o).2 = none := by
  unfold settleWaiter
  split
  · rename_i listener hk
    have hk' : c.heedless.waiters[k]? = some { listener, outcome := none } := by rw [h, hk]
    simp only [heedless, List.getElem?_map, hk, Option.map_some, Option.some.injEq] at hk'
    exact (congrArg Waiter.listener hk').symm
  · rfl

theorem tell_of_heedless {c : Cell τ φ α} (h : c.heedless = c) (k : Nat) : (c.tell k).2 = none := by
  unfold tell
  split
  · exact settleWaiter_of_heedless h k _
  · rfl

end Cell

/-- The record, when it is forgotten who listens to its waiters. -/
def Record.heedless (r : Record) : Record := { r with cell := r.cell.heedless }

@[simp] theorem Record.heedless_heedless (r : Record) : r.heedless.heedless = r.heedless := by
  simp [heedless]

/-- It does not matter to a resolution who listens. -/
theorem Record.perform_heedless {J : Type} [DecidableEq J] (r : Record) (wrap : FileJob → J)
    (file : String) (registries : Nat → Registry) (loop : Loop J) (job : FileJob) :
    (r.heedless.perform wrap file registries loop job).record =
        (r.perform wrap file registries loop job).record.heedless ∧
      (r.heedless.perform wrap file registries loop job).loop =
        (r.perform wrap file registries loop job).loop ∧
      (r.heedless.perform wrap file registries loop job).events =
        (r.perform wrap file registries loop job).events := by
  have hpending : r.heedless.cell.pending = r.cell.pending := Cell.pending_heedless r.cell
  have hcomplete : ∀ registry work addresses,
      (r.heedless.complete wrap file registry loop work addresses).record =
          (r.complete wrap file registry loop work addresses).record.heedless ∧
        (r.heedless.complete wrap file registry loop work addresses).loop =
          (r.complete wrap file registry loop work addresses).loop ∧
        (r.heedless.complete wrap file registry loop work addresses).events =
          (r.complete wrap file registry loop work addresses).events := by
    intro registry work addresses
    simp only [complete, finish, hpending]
    exact ⟨rfl, trivial, trivial⟩
  have hfail : ∀ work ending,
      (r.heedless.fail wrap loop work ending).record =
          (r.fail wrap loop work ending).record.heedless ∧
        (r.heedless.fail wrap loop work ending).loop = (r.fail wrap loop work ending).loop ∧
        (r.heedless.fail wrap loop work ending).events =
          (r.fail wrap loop work ending).events := by
    intro work ending
    simp only [fail, finish, hpending]
    exact ⟨rfl, trivial, trivial⟩
  have hwork : r.heedless.work = r.work := rfl
  cases job with
  | tell k =>
    simp only [perform]
    refine ⟨?_, trivial, trivial⟩
    exact congrArg (fun cell => { r with cell }) (Cell.tell_heedless r.cell k).symm
  | join job =>
    cases hw : r.work with
    | none => cases job <;> simp [perform, hwork, hw]
    | some work =>
      cases job with
      | launch =>
        simp only [perform, hwork, hw]
        split
        · exact hcomplete _ _ _
        · exact ⟨rfl, rfl, rfl⟩
      | wake =>
        simp only [perform, hwork, hw]
        split
        · exact hcomplete _ _ _
        · exact hfail _ _
        · exact hfail _ _
        · exact ⟨rfl, rfl, rfl⟩
      | turn i => simp only [perform, hwork, hw]; exact ⟨rfl, rfl, rfl⟩
      | hear i => simp only [perform, hwork, hw]; exact ⟨rfl, rfl, rfl⟩

theorem Record.listener_perform {J : Type} [DecidableEq J] {r : Record} (h : r.heedless = r)
    (wrap : FileJob → J) (file : String) (registries : Nat → Registry) (loop : Loop J)
    (job : FileJob) : (r.perform wrap file registries loop job).listener = none := by
  have hcell : r.cell.heedless = r.cell := congrArg Record.cell h
  unfold perform
  split
  · exact Cell.tell_of_heedless hcell _
  · split <;> rfl
  · split <;> rfl
  · rfl
  · rfl

namespace Lane

variable {envs : Nat → Environment} {options : Options} {id : FileId}

/-- The lane, when it is forgotten who listens to the waiters of the file. -/
def heedless (l : Lane) : Lane := { l with record := l.record.heedless }

@[simp] theorem text_heedless (l : Lane) : l.heedless.record.text = l.record.text := rfl

@[simp] theorem stage_heedless (l : Lane) :
    l.heedless.record.cell.stage = l.record.cell.stage := rfl

@[simp] theorem loop_heedless (l : Lane) : l.heedless.loop = l.loop := rfl

@[simp] theorem log_heedless (l : Lane) : l.heedless.log = l.log := rfl

theorem setCell_heedless (l : Lane) (cell : Cell WalkRef Fault Dependencies) :
    (l.setCell cell).heedless = l.heedless.setCell cell.heedless := rfl

theorem turn_heedless (l : Lane) (id : FileId) (registries : Nat → Registry) :
    (l.turn id registries).heedless = l.heedless.turn id registries := by
  unfold turn
  simp only [loop_heedless]
  split
  · rfl
  · rename_i job loop _
    obtain ⟨hrecord, hloop, hevents⟩ := l.record.perform_heedless (fun job => job) id.name
      registries loop job
    have hr : l.heedless.record = l.record.heedless := rfl
    simp only [hr, hrecord, hloop, hevents, log_heedless]
    rfl

/-! ## What is done to a file, on its lane -/

/-- A request for the file: the first that can read its text starts its resolution. -/
def request (env : Environment) (options : Options) (resolver : Nat) (id : FileId)
    (listener : Option WalkRef) (l : Lane) : Lane :=
  match l.record.cell.stage, env.extract l.record.text with
  | .unstarted, .ok (found, _) =>
    let l := l.start env options resolver id found
    l.setCell (l.record.cell.join listener)
  | .unstarted, .error _ => { l with log := l.log ++ [.extracting id l.record.text] }
  | _, _ => l.setCell (l.record.cell.join listener)

/-- A request for the file where no loop is running. -/
def requestWithoutLoop (id : FileId) (l : Lane) : Lane :=
  match l.record.cell.stage with
  | .unstarted => { l with log := l.log ++ [.extracting id l.record.text] }
  | _ => l.setCell (l.record.cell.join none)

/-- What an action does to the lane of the file that it concerns. -/
def deal (envs : Nat → Environment) (options : Options) (id : FileId) (registries : Nat → Registry)
    (l : Lane) : Action → Lane
  | .tick => l.turn id registries
  | .setText _ text => { l with record := { l.record with text } }
  | .resolve resolver _ => l.request (envs resolver) options resolver id none
  | .resolveWithoutLoop .. => l.requestWithoutLoop id
  | .giveUp _ waiter => l.setCell (l.record.cell.giveUp waiter).1
  | .release gate => { l with loop := l.loop.release gate }
  | .add .. | .register .. | .walk .. | .cancelWalk _ => l

/-- What several actions do to the lane of the file that they concern. -/
def dealAll (envs : Nat → Environment) (options : Options) (id : FileId) :
    (Nat → Registry) → Lane → List Action → Lane
  | _, l, [] => l
  | registries, l, a :: rest =>
    dealAll envs options id
      (fun k => (registries k).registerAll (World.declarations k [a]))
      (l.deal envs options id registries a) rest

/-- What each of several actions keeps is kept by all of them. -/
theorem dealAll_of_deal {P : Lane → Prop} {dealt : List Action}
    (h : ∀ b ∈ dealt, ∀ registries l, P l → P (l.deal envs options id registries b))
    (registries : Nat → Registry) {l : Lane} (hl : P l) :
    P (dealAll envs options id registries l dealt) := by
  induction dealt generalizing l registries with
  | nil => exact hl
  | cons b rest ih =>
    exact ih (fun b hb => h b (List.mem_cons_of_mem _ hb)) _ (h b List.mem_cons_self _ _ hl)

theorem request_heedless (env : Environment) (options : Options) (resolver : Nat) (id : FileId)
    (listener : Option WalkRef) (l : Lane) :
    (l.request env options resolver id listener).heedless =
      l.heedless.request env options resolver id none := by
  unfold request
  simp only [stage_heedless, text_heedless]
  split
  · rename_i found _ _ _
    refine (setCell_heedless _ _).trans ?_
    rw [Cell.join_heedless]
    rfl
  · rfl
  · rw [setCell_heedless, Cell.join_heedless]
    rfl

theorem requestWithoutLoop_heedless (id : FileId) (l : Lane) :
    (l.requestWithoutLoop id).heedless = l.heedless.requestWithoutLoop id := by
  unfold requestWithoutLoop
  simp only [stage_heedless]
  split
  · rfl
  · rw [setCell_heedless, Cell.join_heedless]
    rfl

theorem dealAll_append (registries : Nat → Registry) (l : Lane) (before after : List Action) :
    dealAll envs options id registries l (before ++ after) =
      dealAll envs options id
        (fun k => (registries k).registerAll (World.declarations k before))
        (dealAll envs options id registries l before) after := by
  induction before generalizing registries l with
  | nil => rfl
  | cons a rest ih =>
    have hsplit : ∀ k, World.declarations k (a :: rest) =
        World.declarations k [a] ++ World.declarations k rest := fun k =>
      show ([a] ++ rest).filterMap _ = _ from List.filterMap_append
    simp only [List.cons_append, dealAll, ih, hsplit, Registry.registerAll_append]

end Lane

end DepGraph
