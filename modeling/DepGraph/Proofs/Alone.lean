import DepGraph.Proofs.Dealings

/-!
# A file by itself

A `World.Sole` world has jobs of one file only, and nobody listens to its waiters. What a run does
to a file can be done to it in such a world, with the same effect.

* `Action.Concerns` — the actions that are done to one file.
* `World.Sole` — a world in which nothing but one file is at work.
* `World.Mirrors` — the file is at work in one world as it is, by itself, in another.
* `World.Mirrors.run` — what a run does to a file can be done to it alone, with the same effect.
-/

set_option autoImplicit false

namespace DepGraph

/-- An action that is done to a file, other than a turn of it. -/
def Action.Concerns (id : FileId) : Action → Prop
  | .resolve _ name | .resolveWithoutLoop _ name | .setText name _ => name = id.name
  | .giveUp other _ => other = id
  | .register .. | .release _ => True
  | .tick | .add .. | .walk .. | .cancelWalk _ => False

theorem Action.Concerns.ne_tick {id : FileId} {b : Action} (h : b.Concerns id) : b ≠ .tick := by
  rintro rfl
  exact h

/-- The job, unless it is one of file `id`. -/
def Job.others (id : FileId) (job : Job) : Option Job :=
  if (Job.of? id job).isSome then none else some job

@[simp] theorem Job.others_file (id : FileId) (job : FileJob) :
    Job.others id (.file id job) = none := by
  simp [others]

namespace World

variable {envs : Nat → Environment} {w w' : World} {id : FileId} {l : Lane} {a b : Action}

/-- Only one file is at work in the world, which is found under its name; there are no walks, and
nobody listens to its waiters. -/
structure Sole (id : FileId) (w : World) : Prop where
  tidy : w.Tidy
  current : w.store.current? id.name = some id
  walks : w.walks = []
  jobs : w.loop.select (Job.others id) = { opened := w.loop.opened }
  unheeded : ∀ l, w.lane? id = some l → l.heedless = l

/-- What is due for the file is due. -/
theorem Sole.next? (h : Sole id w) (hl : w.lane? id = some l) {job : FileJob}
    {rest : Loop FileJob} (hnext : l.loop.next? = some (job, rest)) :
    ∃ loop, w.loop.next? = some (.file id job, loop) := by
  have hloop := (lane?_eq_some.mp hl).2.1
  cases hready : w.loop.ready with
  | nil => simp [hloop, Loop.next?, Loop.select, hready] at hnext
  | cons first more =>
    have hfirst : Job.others id first = none := by
      have hnone := congrArg Loop.ready h.jobs
      simp only [Loop.select, hready, List.filterMap_eq_nil_iff] at hnone
      exact hnone first List.mem_cons_self
    unfold Job.others at hfirst
    split at hfirst
    · rename_i hsome
      obtain ⟨job', hjob'⟩ := Option.isSome_iff_exists.mp hsome
      obtain rfl := (Job.of?_unwraps id _ _).mp hjob'
      rw [hloop] at hnext
      simp only [Loop.next?, Loop.select, hready, List.filterMap_cons, hjob', Option.some.injEq,
        Prod.mk.injEq] at hnext
      exact ⟨_, by rw [Loop.next?, hready, hnext.1]⟩
    · cases hfirst

/-- A turn of the file leaves it alone. -/
theorem Sole.tick (h : Sole id w) {job : FileJob} {loop : Loop Job}
    (hnext : w.loop.next? = some (.file id job, loop)) : Sole id (w.tick envs) := by
  have htick : w.tick envs = ({ w with loop } : World).performFile id job := by
    simp [World.tick, hnext, perform]
  obtain ⟨r, hr⟩ := h.tidy.inhabited.record? h.current
  have hl := lane?_of_record? hr
  have hheedless : r.heedless = r := congrArg Lane.record (h.unheeded _ hl)
  have hkept := store_performFile { w with loop } id job
  have hextends := Record.perform_extends (.file id) r id.name w.registries loop job
  have hloop : (({ w with loop } : World).performFile id job).loop =
      (r.perform (.file id) id.name w.registries loop job).loop := by
    simp only [performFile, hr, Record.listener_perform hheedless]
    rfl
  refine ⟨tidy_apply envs h.tidy .tick, ?_, ?_, ?_, fun l' hl' => ?_⟩
  · rw [htick, hkept.current?]
    exact h.current
  · rw [htick, walks_performFile]
    exact h.walks
  · rw [htick, hloop, Record.perform_select_none (fun j => Job.others_file id j), hextends.2,
      opened_next? hnext, select_next? hnext (Job.others_file id job)]
    exact h.jobs
  · rw [htick, lane?_performFile hnext hl] at hl'
    obtain rfl := Option.some.inj hl'
    rw [Lane.turn_heedless, h.unheeded _ hl]

theorem Sole.walks_apply (envs : Nat → Environment) (h : Sole id w) (hb : b.Concerns id) :
    (w.apply envs b).walks = [] := by
  cases b with
  | tick | add | walk | cancelWalk => exact hb.elim
  | register | release => exact h.walks
  | setText name text => exact (walks_setText w name text).trans h.walks
  | resolve resolver name => exact (walks_resolve _ w resolver name none).trans h.walks
  | resolveWithoutLoop resolver name => exact (walks_resolveWithoutLoop _ w name none).trans h.walks
  | giveUp other waiter => exact (walks_giveUp w other waiter).trans h.walks

/-- Nobody who gives up is listened to. -/
theorem Sole.loop_giveUp (h : Sole id w) (waiter : Nat) : (w.giveUp id waiter).loop = w.loop := by
  obtain ⟨r, hr⟩ := h.tidy.inhabited.record? h.current
  have hcell : r.cell.heedless = r.cell :=
    congrArg (fun l : Lane => l.record.cell) (h.unheeded _ (lane?_of_record? hr))
  simp only [giveUp, hr, Cell.giveUp, Cell.settleWaiter_of_heedless hcell]
  rfl

/-- Nothing comes to be due but jobs of the file. -/
theorem Sole.jobs_apply (envs : Nat → Environment) (h : Sole id w) (hb : b.Concerns id) :
    (w.apply envs b).loop.select (Job.others id) = { opened := (w.apply envs b).loop.opened } := by
  have hsame : (w.apply envs b).loop = w.loop →
      (w.apply envs b).loop.select (Job.others id) =
        { opened := (w.apply envs b).loop.opened } := by
    intro hloop
    rw [hloop]
    exact h.jobs
  cases b with
  | tick | add | walk | cancelWalk => exact hb.elim
  | register => exact h.jobs
  | release gate =>
    change (w.loop.release gate).select _ = _
    rw [Loop.select_release, h.jobs]
    rfl
  | setText name text => exact hsame (loop_setText w name text)
  | resolve resolver name =>
    have hname : name = id.name := hb
    rcases resolve_spec (envs resolver) w resolver name none with
      ⟨_, h'⟩ | ⟨id', r', hid', _, ⟨_, _, _, h'⟩ | ⟨_, found, notices, _, h'⟩ | ⟨_, h'⟩⟩
    · exact hsame (congrArg (fun p => p.1.loop) h')
    · exact hsame (congrArg (fun p => p.1.loop) h')
    · obtain rfl : id = id' := Option.some.inj ((hname ▸ h.current).symm.trans hid')
      change (w.resolve (envs resolver) resolver name none).1.loop.select _ =
        { opened := (w.resolve (envs resolver) resolver name none).1.loop.opened }
      rw [h']
      change (w.loop.post (.file id (.join .launch))).select _ = _
      rw [Loop.select_post, Job.others_file, h.jobs]
      rfl
    · exact hsame (congrArg (fun p => p.1.loop) h')
  | resolveWithoutLoop resolver name => exact hsame (loop_resolveWithoutLoop _ w name none)
  | giveUp other waiter =>
    obtain rfl : other = id := hb
    exact hsame (h.loop_giveUp waiter)

/-- Nobody comes to listen to the file. -/
theorem Sole.unheeded_apply (envs : Nat → Environment) (h : Sole id w) (hb : b.Concerns id)
    {l : Lane} (hl : (w.apply envs b).lane? id = some l) : l.heedless = l := by
  obtain ⟨r, hr⟩ := h.tidy.inhabited.record? h.current
  have hbefore := lane?_of_record? hr
  have hheedless := h.unheeded _ hbefore
  have hafter : ∀ {l' : Lane}, (w.apply envs b).lane? id = some l' → l'.heedless = l' →
      l.heedless = l := by
    intro l' h₁ h₂
    obtain rfl := Option.some.inj (h₁.symm.trans hl)
    exact h₂
  have hfound : ∀ {name : String}, name = id.name → w.store.current? name = some id := by
    rintro name rfl
    exact h.current
  cases b with
  | tick | add | walk | cancelWalk => exact hb.elim
  | register resolver address => exact hafter (((aside_note _ _).lane? id).trans hbefore) hheedless
  | release gate =>
    refine hafter ((lane?_release w gate id).trans (congrArg _ hbefore)) ?_
    exact congrArg (fun l : Lane => { l with loop := l.loop.release gate }) hheedless
  | setText name text =>
    refine hafter ((lane?_setText hbefore name text).trans (if_pos (hfound hb))) ?_
    exact congrArg (fun l : Lane => { l with record := { l.record with text } }) hheedless
  | resolve resolver name =>
    refine hafter (lane?_resolve hbefore (hfound hb) _ _ none) ?_
    rw [Lane.request_heedless, hheedless]
  | resolveWithoutLoop resolver name =>
    refine hafter (lane?_resolveWithoutLoop hbefore (hfound hb) _) ?_
    rw [Lane.requestWithoutLoop_heedless, hheedless]
  | giveUp other waiter =>
    obtain rfl : other = id := hb
    refine hafter ((lane?_giveUp hbefore other waiter).trans (if_pos rfl)) ?_
    have hcell : r.cell.heedless = r.cell := congrArg (fun l : Lane => l.record.cell) hheedless
    rw [Lane.setCell_heedless, hheedless]
    exact congrArg _ ((Cell.settleWaiter_heedless _ _ _).trans (by rw [hcell]; rfl))

/-- What is done to the file leaves it alone. -/
theorem Sole.apply (envs : Nat → Environment) (h : Sole id w) (hb : b.Concerns id) :
    Sole id (w.apply envs b) := by
  have hnot := Action.Concerns.ne_tick hb
  have hkept : w.store.Kept (w.apply envs b).store := by
    refine Moves.kept (apply_moves h.tidy.walks hnot) hnot fun name text e => ?_
    rw [e] at hb
    exact hb
  exact ⟨tidy_apply envs h.tidy b, (hkept.current? _).trans h.current, h.walks_apply envs hb,
    h.jobs_apply envs hb, fun _ => h.unheeded_apply envs hb⟩

/-! ## Doing to it alone what is done to it in a run -/

/-- What is done to the file is just what is done. -/
theorem Sole.dealings_eq (h : Sole id w) (hb : b.Concerns id) : w.dealings envs id b = [b] := by
  have hfound : ∀ {name : String}, name = id.name → w.store.current? name = some id := by
    rintro name rfl
    exact h.current
  cases b with
  | tick | add | walk | cancelWalk => exact hb.elim
  | register | release => rfl
  | setText | resolve | resolveWithoutLoop => exact if_pos (hfound hb)
  | giveUp => exact if_pos hb

theorem Sole.run (envs : Nat → Environment) (h : Sole id w) {dealt : List Action}
    (hdealt : ∀ b ∈ dealt, b.Concerns id) :
    Sole id (w.run envs dealt) ∧ allDealings envs id w dealt = dealt := by
  induction dealt generalizing w with
  | nil => exact ⟨h, rfl⟩
  | cons b rest ih =>
    have hb := hdealt b List.mem_cons_self
    obtain ⟨hsole, hrest⟩ := ih (h.apply envs hb) fun b hmem =>
      hdealt b (List.mem_cons_of_mem _ hmem)
    refine ⟨hsole, ?_⟩
    rw [allDealings, h.dealings_eq hb, hrest]
    rfl

/-- What an action does to a file is a turn of it, or something that concerns it. -/
theorem dealings_cases (envs : Nat → Environment) (id : FileId) (w : World) (a : Action) :
    (a = .tick ∧ w.dealings envs id a = [.tick] ∧
        ∃ job loop, w.loop.next? = some (.file id job, loop)) ∨
      ∀ b ∈ w.dealings envs id a, b.Concerns id := by
  by_cases hturn : a = .tick ∧ ∃ job loop, w.loop.next? = some (.file id job, loop)
  · obtain ⟨rfl, job, loop, hnext⟩ := hturn
    exact .inl ⟨rfl, by simp [dealings, hnext], job, loop, hnext⟩
  · refine .inr fun b hb => ?_
    cases a with
    | tick =>
      simp only [dealings] at hb
      split at hb
      · cases hb
      · rename_i other job loop hnext
        split at hb
        · rename_i hid
          exact absurd ⟨rfl, job, loop, hid ▸ hnext⟩ hturn
        · cases hb
      · obtain ⟨resolver, rfl⟩ := mem_walkRequests hb
        exact rfl
    | add | walk => cases hb
    | register | release =>
      obtain rfl := List.mem_singleton.mp hb
      trivial
    | cancelWalk k =>
      obtain ⟨waiter, rfl⟩ := mem_walkGiveUps hb
      exact rfl
    | giveUp other waiter =>
      simp only [dealings] at hb
      split at hb
      · rename_i hid
        obtain rfl := List.mem_singleton.mp hb
        exact hid
      · cases hb
    | setText | resolve | resolveWithoutLoop =>
      simp only [dealings] at hb
      split at hb
      · rename_i hid
        obtain rfl := List.mem_singleton.mp hb
        exact (Store.current?_name hid).symm
      · cases hb

/-- Whatever a run does to a file is a turn of it, or concerns it. -/
theorem concerns_allDealings {actions : List Action} (hb : b ∈ allDealings envs id w actions) :
    b = .tick ∨ b.Concerns id := by
  induction actions generalizing w with
  | nil => cases hb
  | cons a rest ih =>
    rcases List.mem_append.mp hb with hb | hb
    · rcases dealings_cases envs id w a with ⟨-, htick, -⟩ | hconcerns
      · rw [htick] at hb
        exact .inl (List.mem_singleton.mp hb)
      · exact .inr (hconcerns b hb)
    · exact ih hb

/-- In the second world only the file is at work, and it is as in the first. -/
structure Mirrors (id : FileId) (w w' : World) : Prop where
  tidy : w.Tidy
  sole : Sole id w'
  options : w'.store.options = w.store.options
  registries : w'.registries = w.registries
  lanes : ∃ l l', w.lane? id = some l ∧ w'.lane? id = some l' ∧ l'.heedless = l.heedless

/-- **What an action does to the file**, once it has added what it adds, can be done to it alone. -/
theorem mirrors_apply (envs : Nat → Environment) (a : Action) (hw : w.Tidy) (hsole : Sole id w')
    (hoptions : w'.store.options = w.store.options) (hregistries : w'.registries = w.registries)
    {l l' : Lane}
    (hl : ((w.additions a).foldl (fun w (name, text) => w.add name text) w).lane? id = some l)
    (hl' : w'.lane? id = some l') (hsame : l'.heedless = l.heedless) :
    Mirrors id (w.apply envs a) (w'.run envs (w.dealings envs id a)) ∧
      allDealings envs id w' (w.dealings envs id a) = w.dealings envs id a := by
  obtain ⟨hsole', hdealt⟩ : Sole id (w'.run envs (w.dealings envs id a)) ∧
      allDealings envs id w' (w.dealings envs id a) = w.dealings envs id a := by
    rcases dealings_cases envs id w a with ⟨rfl, htick, job, loop, hnext⟩ | hconcerns
    · have hnone : w.additions .tick = [] := by simp [additions, hnext]
      rw [hnone] at hl
      have hturn : l'.loop.next? = some (job, loop.select (Job.of? id)) := by
        rw [← Lane.loop_heedless, hsame, Lane.loop_heedless, (lane?_eq_some.mp hl).2.1]
        exact next?_select hnext (Job.of?_file id job)
      obtain ⟨loop', hnext'⟩ := hsole.next? hl' hturn
      rw [htick]
      exact ⟨hsole.tick hnext', by simp [allDealings, dealings, hnext']⟩
    · exact hsole.run envs hconcerns
  obtain ⟨l₁, hl₁, hdeals⟩ := lane?_apply_added envs hw a hl
  obtain ⟨l₁', hl₁', hdeals'⟩ := lane?_run_dealings envs hsole.tidy hl' (w.dealings envs id a)
  refine ⟨⟨tidy_apply envs hw a, hsole', ?_, ?_, l₁, l₁', hl₁, hl₁', ?_⟩, hdealt⟩
  · rw [options_run hsole.tidy, options_apply hw, hoptions]
  · funext k
    rw [registries_run envs hsole.tidy, registries_apply hw, declarations_dealings, hregistries]
  · rw [hdeals, hdeals', hdealt, hsame, hoptions, hregistries]

/-- **What a run does to the file** can be done to it alone, and makes the same of it. -/
theorem Mirrors.run (envs : Nat → Environment) (h : Mirrors id w w') (actions : List Action) :
    Mirrors id (w.run envs actions) (w'.run envs (allDealings envs id w actions)) ∧
      allDealings envs id w' (allDealings envs id w actions) = allDealings envs id w actions := by
  induction actions generalizing w w' with
  | nil => exact ⟨h, rfl⟩
  | cons a rest ih =>
    obtain ⟨l, l', hl, hl', hsame⟩ := h.lanes
    obtain ⟨hfirst, hdealt⟩ := mirrors_apply envs a h.tidy h.sole h.options
      h.registries (lane?_addAll _ hl) hl' hsame
    obtain ⟨hrest, hmore⟩ := ih hfirst
    rw [allDealings, run_append, allDealings_append, hdealt, hmore]
    exact ⟨hrest, rfl⟩

end World

end DepGraph
