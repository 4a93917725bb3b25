import DepGraph.Proofs.Fetching
import DepGraph.Proofs.Overlap

/-!
# What is due to one walk

All walks share one loop. The agenda of a walk is what is due to it or waits for it. Whatever
somebody else does adds nothing to it but that the walk is to hear of a file, whenever one that it
waits for has come to an outcome.

* `World.agenda` — the jobs of one walk.
* `World.Elsewhere` — a walk has no part in what happens.
* `World.elsewhere_performFile`, `World.elsewhere_performWalk` — neither in the jobs of files and of
  other walks,
* `World.elsewhere_apply` — nor in any action that neither requests nor cancels it, nor carries out
  a job of it, nor opens a gate.
-/

set_option autoImplicit false

namespace DepGraph

/-! ## Jobs of one walk -/

/-- The job of a walk, if it is one of walk `k`. -/
def Job.walk? (k : Nat) : Job → Option WalkJob
  | .walk j job => if j = k then some job else none
  | .file .. => none

theorem Job.walk?_unwraps (k : Nat) : Loop.Unwraps (Job.walk? k) (Job.walk k) := by
  intro j job
  cases j with
  | file id job' => simp [Job.walk?]
  | walk j job' => by_cases h : j = k <;> simp [Job.walk?, h]

@[simp] theorem Job.walk?_walk (k : Nat) (job : WalkJob) :
    Job.walk? k (.walk k job) = some job := by
  simp [Job.walk?]

@[simp] theorem Job.walk?_file (k : Nat) (id : FileId) (job : FileJob) :
    Job.walk? k (.file id job) = none := rfl

theorem Job.walk?_other {j k : Nat} (h : j ≠ k) (job : WalkJob) :
    Job.walk? k (.walk j job) = none := by
  simp [Job.walk?, h]

/-- The job of the texts that a walk fetches, if it is one. -/
def WalkJob.fetch? : WalkJob → Option JoinJob
  | .fetch job => some job
  | _ => none

theorem WalkJob.fetch?_unwraps : Loop.Unwraps WalkJob.fetch? WalkJob.fetch := by
  intro j job
  cases j <;> simp [WalkJob.fetch?]

/-! ## Waiters that come to an outcome -/

/-- A waiter of a cell may have come to an outcome; then `listener` says who listens to it. The
others stay as they are. -/
def Cell.Tells {τ φ α : Type} (c c' : Cell τ φ α) (listener : Option τ) : Prop :=
  ∀ (n : Nat) (x : Waiter τ φ α), c.waiters[n]? = some x → c'.waiters[n]? = some x ∨
    x.outcome = none ∧ listener = x.listener ∧
      ∃ o, c'.waiters[n]? = some { x with outcome := some o }

theorem Cell.tells_settleWaiter {τ φ α : Type} (c : Cell τ φ α) (n : Nat) (o : Ending φ α) :
    c.Tells (c.settleWaiter n o).1 (c.settleWaiter n o).2 := by
  intro m x hx
  by_cases hm : m = n ∧ x.outcome = none
  · obtain ⟨rfl, hnone⟩ := hm
    rw [settleWaiter_of_pending hx hnone]
    exact .inr ⟨hnone, rfl, o, List.getElem?_set_self (List.getElem?_eq_some_iff.mp hx).1⟩
  · rw [getElem?_settleWaiter, hx, Option.map_some, if_neg hm]
    exact .inl rfl

theorem Record.tells_perform {J : Type} [DecidableEq J] (r : Record) (wrap : FileJob → J)
    (file : String) (registries : Nat → Registry) (loop : Loop J) (job : FileJob) :
    r.cell.Tells (r.perform wrap file registries loop job).record.cell
      (r.perform wrap file registries loop job).listener := by
  refine perform_induction (motive := fun done => r.cell.Tells done.record.cell done.listener)
    (fun k => ?_) (fun _ _ => .inl) (fun _ _ _ _ _ => .inl) (fun _ _ _ _ _ => .inl)
    (fun _ _ _ _ _ => .inl) job
  simp only [Cell.tell]
  split
  · exact Cell.tells_settleWaiter _ _ _
  · exact fun _ _ => .inl

namespace World

variable {env : Nat → Environment} {w w' w'' : World} {j k : Nat} {id : FileId}

/-- What is due to walk `k`, and what waits for it. -/
def agenda (w : World) (k : Nat) : Loop WalkJob := w.loop.select (Job.walk? k)

theorem mem_agenda {job : WalkJob} : job ∈ (w.agenda k).ready ↔ .walk k job ∈ w.loop.ready :=
  Loop.mem_select (Job.walk?_unwraps k)

theorem outcome?_of_waiter {r : Record} (hr : w.store.record? id = some r) {n : Nat}
    {x : Waiter WalkRef Fault Dependencies} (hx : r.cell.waiters[n]? = some x) :
    w.outcome? id n = x.outcome := by
  simp [outcome?, hr, hx]

/-! ## What a walk has no part in -/

/-- Walk `k` has no part in what happens: it stays as it is, nothing comes to be due to it but that
it hears of files of its round, and a waiter to whom it listens comes to an outcome only if it is to
hear of it. -/
structure Elsewhere (k : Nat) (w w' : World) : Prop where
  walk : w'.walks[k]? = w.walks[k]?
  agenda : ∃ places : List Nat, w'.agenda k = (w.agenda k).postAll (places.map .resolved)
  grows : w.store.Grows w'.store
  told : ∀ id n place, w.store.Listens id n (some ⟨k, place⟩) →
    w'.outcome? id n = w.outcome? id n ∨
      w.outcome? id n = none ∧ .resolved place ∈ (w'.agenda k).ready

namespace Elsewhere

theorem of_store (hwalk : w'.walks[k]? = w.walks[k]?) (hagenda : w'.agenda k = w.agenda k)
    (hgrows : w.store.Grows w'.store)
    (hout : ∀ id n place, w.store.Listens id n (some ⟨k, place⟩) →
      w'.outcome? id n = w.outcome? id n) : Elsewhere k w w' :=
  ⟨hwalk, ⟨[], by simp [hagenda]⟩, hgrows, fun id n place h => .inl (hout id n place h)⟩

/-- Where the store stays, nobody comes to an outcome. -/
theorem of_same (hwalk : w'.walks[k]? = w.walks[k]?) (hagenda : w'.agenda k = w.agenda k)
    (hstore : w'.store = w.store) : Elsewhere k w w' :=
  of_store hwalk hagenda (hstore ▸ .refl _) fun id n _ _ => by simp only [outcome?, hstore]

theorem refl (k : Nat) (w : World) : Elsewhere k w w := of_same rfl rfl rfl

theorem trans (h : Elsewhere k w w') (h' : Elsewhere k w' w'') : Elsewhere k w w'' := by
  obtain ⟨places, hplaces⟩ := h.agenda
  obtain ⟨places', hplaces'⟩ := h'.agenda
  have hagenda : w''.agenda k = (w.agenda k).postAll ((places ++ places').map .resolved) := by
    rw [hplaces', hplaces]
    simp [Loop.postAll]
  refine ⟨h'.walk.trans h.walk, ⟨_, hagenda⟩, h.grows.trans h'.grows, fun id n place hl => ?_⟩
  rcases h'.told id n place (h.grows.listens hl) with hsame | ⟨hnone, hmem⟩
  · rcases h.told id n place hl with hsame' | ⟨hnone, hmem⟩
    · exact .inl (hsame.trans hsame')
    · refine .inr ⟨hnone, ?_⟩
      rw [hplaces']
      exact List.mem_append_left _ hmem
  · rcases h.told id n place hl with hsame' | ⟨hnone', -⟩
    · exact .inr ⟨hsame'.symm.trans hnone, hmem⟩
    · exact .inr ⟨hnone', hmem⟩

end Elsewhere

/-! ## What is done to files and to other walks -/

theorem elsewhere_record (k : Nat) (w : World) (events : List Event) :
    Elsewhere k w (w.record events) := .of_same rfl rfl rfl

theorem elsewhere_loop {loop : Loop Job}
    (h : loop.select (Job.walk? k) = w.loop.select (Job.walk? k)) :
    Elsewhere k w { w with loop } := .of_same rfl h rfl

theorem elsewhere_post (w : World) {job : Job} (h : Job.walk? k job = none) :
    Elsewhere k w (w.post job) :=
  elsewhere_loop (by simp [h])

theorem elsewhere_modifyWalk (h : j ≠ k) (w : World) (change : Walk → Walk) :
    Elsewhere k w (w.modifyWalk j change) :=
  .of_same (getElem?_modifyWalk_ne h w change) rfl rfl

theorem agenda_alert (w : World) (k : Nat) (listener : Option WalkRef) :
    ∃ places : List Nat, (w.alert listener).agenda k =
        (w.agenda k).postAll (places.map .resolved) ∧
      ∀ place, listener = some ⟨k, place⟩ → place ∈ places := by
  cases listener with
  | none => exact ⟨[], by simp [alert], nofun⟩
  | some ref =>
    obtain ⟨j, place⟩ := ref
    by_cases h : j = k
    · subst h
      refine ⟨[place], ?_, ?_⟩
      · simp [alert, post, agenda, heardJob, Loop.postAll]
      · rintro _ ⟨⟩
        exact List.mem_singleton_self _
    · refine ⟨[], ?_, ?_⟩
      · simp [alert, post, agenda, heardJob, Job.walk?_other h]
      · rintro _ ⟨⟩
        exact absurd rfl h

theorem store_alert (w : World) (listener : Option WalkRef) : (w.alert listener).store = w.store := by
  cases listener <;> rfl

/-- **A waiter of a file comes to an outcome**, and whoever listens to it is alerted. -/
theorem elsewhere_tell (k : Nat) (w : World) (id : FileId) (change : Record → Record)
    (listener : Option WalkRef)
    (h : ∀ r, w.store.record? id = some r → r.cell.Tells (change r).cell listener) :
    Elsewhere k w ((w.modifyFile id change).alert listener) := by
  obtain ⟨places, hagenda, hplaces⟩ := agenda_alert (w.modifyFile id change) k listener
  have hstore : ((w.modifyFile id change).alert listener).store = w.store.modify id change :=
    store_alert _ _
  have hgrows : w.store.Grows (w.store.modify id change) := by
    refine Store.grows_modify fun r hr n x hx => ?_
    rcases h r hr n x hx with hsame | ⟨-, -, o, hsome⟩
    · exact ⟨x, hsame, rfl⟩
    · exact ⟨_, hsome, rfl⟩
  refine ⟨congrArg (·[k]?) (walks_alert _ _), ⟨places, hagenda⟩, hstore ▸ hgrows, ?_⟩
  rintro other n place ⟨r, x, hr, hx, hlistener⟩
  rw [outcome?_of_waiter hr hx]
  by_cases hid : other = id
  · subst hid
    have hafter : ((w.modifyFile other change).alert listener).store.record? other =
        some (change r) := by
      rw [hstore]
      simp [hr]
    rcases h r hr n x hx with hsame | ⟨hnone, htold, o, hsome⟩
    · exact .inl (outcome?_of_waiter hafter hsame)
    · refine .inr ⟨hnone, ?_⟩
      rw [hagenda]
      exact List.mem_append_right _ (List.mem_map_of_mem (hplaces place (htold.trans hlistener)))
  · refine .inl (outcome?_of_waiter ?_ hx)
    rw [hstore]
    simp [hid, hr]

/-- The waiters that a file has stay. -/
theorem elsewhere_modifyFile (k : Nat) (w : World) (id : FileId) {change : Record → Record}
    (h : ∀ (r : Record) (n : Nat) (x : Waiter WalkRef Fault Dependencies),
      r.cell.waiters[n]? = some x → (change r).cell.waiters[n]? = some x) :
    Elsewhere k w (w.modifyFile id change) :=
  elsewhere_tell k w id change none fun r _ n x hx => .inl (h r n x hx)

theorem elsewhere_join (k : Nat) (w : World) (id : FileId) (listener : Option WalkRef) :
    Elsewhere k w (w.join id listener) :=
  elsewhere_modifyFile k w id fun _ _ _ hx =>
    (List.getElem?_append_left (List.getElem?_eq_some_iff.mp hx).1).trans hx

theorem elsewhere_add (k : Nat) (w : World) (name text : String) :
    Elsewhere k w (w.add name text) := by
  have hstore := store_add w name text
  refine .of_store (congrArg (·[k]?) (walks_add w name text)) ?_ ?_ ?_
  · rw [agenda, loop_add, agenda]
  · rw [hstore]
    exact Store.grows_add _ _ _
  · rintro id n place ⟨r, x, hr, hx, -⟩
    have hne : id ≠ w.store.next name := by
      rintro rfl
      rw [Store.record?_next] at hr
      cases hr
    have hr' : (w.add name text).store.record? id = some r := by
      rw [hstore, Store.record?_add, if_neg hne, hr]
    rw [outcome?_of_waiter hr hx, outcome?_of_waiter hr' hx]

theorem elsewhere_addAll (k : Nat) (files : List (String × String)) (w : World) :
    Elsewhere k w (files.foldl (fun w (name, text) => w.add name text) w) := by
  induction files generalizing w with
  | nil => exact .refl k w
  | cons file rest ih => exact (elsewhere_add k w file.1 file.2).trans (ih _)

theorem elsewhere_setText (k : Nat) (w : World) (name text : String) :
    Elsewhere k w (w.setText name text) := by
  unfold setText
  split
  · exact elsewhere_modifyFile k w _ fun _ _ _ hx => hx
  · exact .refl k w

theorem elsewhere_read (k : Nat) (w : World) (id : FileId) (text : String) :
    Elsewhere k w (w.read id text) := .of_same rfl rfl rfl

theorem elsewhere_begin (k : Nat) (env : Environment) (w : World) (resolver : Nat) (id : FileId)
    (text : String) (found : Extraction) (notices : List Notice) :
    Elsewhere k w (w.begin env resolver id text found notices) := by
  have hread := (elsewhere_read k w id text).trans (elsewhere_record k _ (notices.map .notice))
  refine hread.trans (Elsewhere.trans ?_ (elsewhere_post _ (Job.walk?_file k id _)))
  exact elsewhere_modifyFile k _ id fun _ _ _ hx => hx

/-- A request starts a resolution or brings one more waiter, whoever listens to it. -/
theorem elsewhere_resolve (k : Nat) (env : Environment) (w : World) (resolver : Nat)
    (name : String) (listener : Option WalkRef) :
    Elsewhere k w (w.resolve env resolver name listener).1 := by
  rcases resolve_spec env w resolver name listener with
    ⟨_, h⟩ | ⟨id, r, _, _, ⟨_, _, _, h⟩ | ⟨_, found, notices, _, h⟩ | ⟨_, h⟩⟩ <;> rw [h]
  · exact .refl k w
  · exact elsewhere_read k w id _
  · exact (elsewhere_begin k env w resolver id r.text found notices).trans
      (elsewhere_join k _ id listener)
  · exact elsewhere_join k w id listener

theorem elsewhere_resolveWithoutLoop (k : Nat) (env : Environment) (w : World) (name : String)
    (listener : Option WalkRef) : Elsewhere k w (w.resolveWithoutLoop env name listener).1 := by
  rcases resolveWithoutLoop_spec env w name listener with
    ⟨_, h⟩ | ⟨id, r, _, _, ⟨_, _, _, h⟩ | ⟨_, _, notices, _, h⟩ | ⟨_, h⟩⟩ <;> rw [h]
  · exact .refl k w
  · exact elsewhere_read k w id _
  · exact (elsewhere_read k w id _).trans (elsewhere_record k _ _)
  · exact elsewhere_join k w id listener

theorem elsewhere_resolveAll (k : Nat) (env : Environment) (resolver j place : Nat) (w : World)
    (names : List String) : Elsewhere k w (resolveAll env resolver j place w names).1 :=
  resolveAll_induction (Elsewhere.refl k) Elsewhere.trans
    (fun w name _ => elsewhere_resolve k env w resolver name _) place w names

/-! ## Jobs of other walks -/

theorem frames_elsewhere (h : j ≠ k) : Frames j (Elsewhere k) where
  refl := .refl k
  trans := .trans
  ask env resolver w name _ := elsewhere_resolve k env w resolver name _
  note w _ := elsewhere_record k w _
  modifyWalk w change _ := elsewhere_modifyWalk h w change
  post _ _ := elsewhere_loop (by simp [List.filterMap_map, Job.walk?_other h])
  fetch w join _ := elsewhere_loop (Join.perform_select_none (fun _ => Job.walk?_other h _) w.loop
    join _)

/-- **A job of another walk** is none of the walk's. -/
theorem elsewhere_performWalk (h : j ≠ k) (env : Environment) (w : World) (job : WalkJob) :
    Elsewhere k w (w.performWalk env j job) :=
  (frames_elsewhere h).performWalk env w job (fun _ _ _ _ => elsewhere_add k)
    fun _ _ _ w => elsewhere_record k w _

/-! ## Jobs of files -/

/-- **A job of a file** brings the walk nothing but that it is to hear of the file. -/
theorem elsewhere_performFile (k : Nat) (w : World) (id : FileId) (job : FileJob) :
    Elsewhere k w (w.performFile id job) := by
  unfold performFile
  cases hr : w.store.record? id with
  | none => exact .refl k w
  | some r =>
    simp only
    have hjobs := Record.perform_select_none (Job.walk?_file k id) r id.name w.registries w.loop job
    have htells := r.tells_perform (.file id) id.name w.registries w.loop job
    generalize r.perform (.file id) id.name w.registries w.loop job = done at *
    have hlogged := (elsewhere_loop hjobs).trans (elsewhere_record k { w with loop := done.loop }
      done.events)
    refine hlogged.trans (elsewhere_tell k _ id (fun _ => done.record) _ fun r' hr' => ?_)
    obtain rfl := Option.some.inj (hr.symm.trans hr')
    exact htells

/-! ## Actions -/

theorem elsewhere_walk (h : w.walks.length ≠ k) (resolver : Nat) (entries : List String) :
    Elsewhere k w (w.walk resolver entries).1 := by
  refine .of_same ?_ ?_ rfl
  · simp only [walk, post, List.getElem?_append, List.getElem?_singleton]
    split
    · rfl
    · rw [if_neg (by omega), List.getElem?_eq_none (by omega)]
  · simp [walk, post, agenda, Job.walk?_other h]

theorem elsewhere_giveUp (k : Nat) (w : World) (id : FileId) (n : Nat) :
    Elsewhere k w (w.giveUp id n) := by
  unfold giveUp
  cases hr : w.store.record? id with
  | none => exact .refl k w
  | some r =>
    refine elsewhere_tell k w id _ _ fun r' hr' => ?_
    obtain rfl := Option.some.inj (hr.symm.trans hr')
    exact Cell.tells_settleWaiter _ _ _

theorem elsewhere_cancelFetches (h : j ≠ k) (w : World) (x : Walk) :
    Elsewhere k w (w.cancelFetches j x).1 := by
  unfold cancelFetches
  split
  · exact .refl k w
  · refine Elsewhere.trans (elsewhere_loop ?_) (elsewhere_modifyWalk h _ _)
    exact Join.abandon_select_none (fun _ => Job.walk?_other h _) w.loop _

/-- Another walk is cancelled. -/
theorem elsewhere_cancelWalk (h : j ≠ k) (w : World) : Elsewhere k w (w.cancelWalk j) :=
  cancelWalk_induction (Elsewhere.refl k) Elsewhere.trans (elsewhere_giveUp k)
    (fun w x _ => elsewhere_cancelFetches h w x) (fun w => elsewhere_modifyWalk h w _) w

/-- Taking the first job off the loop takes it off its walk's agenda only. -/
theorem agenda_pop {job : Job} {loop : Loop Job} (h : w.loop.next? = some (job, loop))
    (hjob : Job.walk? k job = none) : ({ w with loop } : World).agenda k = w.agenda k :=
  select_next? h hjob

/-- **Walk `k` has no part in an action** that neither requests nor cancels it, nor opens a gate,
nor carries out a job of it. -/
theorem elsewhere_apply (env : Nat → Environment) {a : Action}
    (hwalk : ∀ resolver entries, a = .walk resolver entries → w.walks.length ≠ k)
    (hcancel : a ≠ .cancelWalk k) (hrelease : ∀ gate, a ≠ .release gate)
    (htick : a = .tick → ∀ job loop, w.loop.next? ≠ some (.walk k job, loop)) :
    Elsewhere k w (w.apply env a) := by
  cases a with
  | tick =>
    change Elsewhere k w (w.tick env)
    unfold tick
    cases hnext : w.loop.next? with
    | none => exact .refl k w
    | some p =>
      obtain ⟨job, loop⟩ := p
      have hpop : Job.walk? k job = none → Elsewhere k w { w with loop } := fun h =>
        .of_same rfl (agenda_pop hnext h) rfl
      cases job with
      | file id job => exact (hpop rfl).trans (elsewhere_performFile k { w with loop } id job)
      | walk j job =>
        have hne : j ≠ k := by
          rintro rfl
          exact htick rfl job loop hnext
        exact (hpop (Job.walk?_other hne job)).trans
          (elsewhere_performWalk hne _ { w with loop } job)
  | add name text => exact elsewhere_add k w name text
  | setText name text => exact elsewhere_setText k w name text
  | register resolver address => exact .of_same rfl rfl rfl
  | resolve resolver name => exact elsewhere_resolve k _ w resolver name none
  | resolveWithoutLoop resolver name => exact elsewhere_resolveWithoutLoop k _ w name none
  | giveUp id n => exact elsewhere_giveUp k w id n
  | walk resolver entries => exact elsewhere_walk (hwalk resolver entries rfl) resolver entries
  | cancelWalk j =>
    refine elsewhere_cancelWalk ?_ w
    rintro rfl
    exact hcancel rfl
  | release gate => exact absurd rfl (hrelease gate)

/-- **What an action is to walk `k`**, which is there and which it does not cancel: a job of the
walk, the opening of a gate, or nothing that it has a part in. -/
theorem apply_cases (env : Nat → Environment) {a : Action} (hlt : k < w.walks.length)
    (hcancel : a ≠ .cancelWalk k) :
    (a = .tick ∧ ∃ job loop, w.loop.next? = some (.walk k job, loop)) ∨
      (∃ gate, a = .release gate) ∨ Elsewhere k w (w.apply env a) ∧
        (a = .tick → ∀ job loop, w.loop.next? ≠ some (.walk k job, loop)) := by
  by_cases hown : a = .tick ∧ ∃ job loop, w.loop.next? = some (.walk k job, loop)
  · exact .inl hown
  · have htick : a = .tick → ∀ job loop, w.loop.next? ≠ some (.walk k job, loop) :=
      fun ha job loop hnext => hown ⟨ha, job, loop, hnext⟩
    by_cases hrelease : ∃ gate, a = .release gate
    · exact .inr (.inl hrelease)
    · exact .inr (.inr ⟨elsewhere_apply env (fun _ _ _ => by omega) hcancel
        (fun gate hgate => hrelease ⟨gate, hgate⟩) htick, htick⟩)

end World

end DepGraph
