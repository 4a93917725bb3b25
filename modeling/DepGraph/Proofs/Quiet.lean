import DepGraph.Proofs.Unasked

/-!
# Before a file is added again

All that a file has to do with what went before it is which gates are open, what is registered and
how many files of its name there were. `World.quietly` brings this about without a single request.

* `World.opened_apply`, `World.opened_run` — which gates are open after a run.
* `World.Quiet` — nobody has asked for anything.
* `World.quietly` — the same registrations and the same gates, and as many files of a name.
* `World.add_quietly` — a file that is added then is as new as one that is added in the run.
-/

set_option autoImplicit false

namespace DepGraph

/-- The action registers a declaration file, or opens a gate. -/
def Action.isOutward : Action → Bool
  | .register .. | .release _ => true
  | _ => false

namespace World

variable {envs : Nat → Environment} {w w' : World} {a : Action} {name : String}

/-! ## Open gates -/

theorem opened_alert (w : World) (listener : Option WalkRef) :
    (w.alert listener).loop.opened = w.loop.opened := by
  cases listener <;> rfl

/-- Only the opening of a gate changes which gates are open. -/
theorem Moves.opened (h : Moves envs a w w') (ha : ∀ gate, a ≠ .release gate) :
    w'.loop.opened = w.loop.opened := by
  induction h with
  | refl => rfl
  | @tail w₁ w₂ _ hmove ih =>
    refine Eq.trans ?_ ih
    cases hmove with
    | aside h => exact h.loop.2
    | add name text => rw [loop_add]
    | setText => rw [loop_setText]
    | register => rfl
    | release h => exact absurd h (ha _)
    | @ask resolver name listener _ =>
      rcases resolve_spec (envs resolver) w₁ resolver name listener with
        ⟨_, h⟩ | ⟨_, _, _, _, ⟨_, _, _, h⟩ | ⟨_, _, _, _, h⟩ | ⟨_, h⟩⟩ <;> rw [h] <;> rfl
    | askWithoutLoop => rw [loop_resolveWithoutLoop]
    | giveUp =>
      unfold giveUp
      split
      · rfl
      · exact opened_alert _ _

theorem opened_apply (hw : w.Tidy) (ha : ∀ gate, a ≠ .release gate) :
    (w.apply envs a).loop.opened = w.loop.opened := by
  by_cases htick : a = .tick
  · subst htick
    change (w.tick envs).loop.opened = _
    rcases tick_cases envs hw with ⟨_, h⟩ | ⟨id, job, loop, hnext, h⟩ | ⟨k, job, loop, hnext, h⟩
    · rw [h]
    · rw [h]
      unfold performFile
      split
      · exact opened_next? hnext
      · rename_i r _
        have hextends := Record.perform_extends (.file id) r id.name w.registries loop job
        exact (opened_alert _ _).trans (hextends.2.trans (opened_next? hnext))
    · exact (Moves.opened h ha).trans (opened_next? hnext)
  · exact Moves.opened (apply_moves hw.walks htick) ha

/-- Nothing but what is done from outside matters to which gates are open after a run. -/
theorem opened_run (hw : w.Tidy) (hw' : w'.Tidy) (h : w'.loop.opened = w.loop.opened)
    (actions : List Action) :
    (w'.run envs (actions.filter Action.isOutward)).loop.opened =
      (w.run envs actions).loop.opened := by
  induction actions generalizing w w' with
  | nil => exact h
  | cons a rest ih =>
    by_cases ha : a.isOutward = true
    · rw [List.filter_cons_of_pos ha]
      refine ih (tidy_apply envs hw a) (tidy_apply envs hw' a) ?_
      cases a with
      | release gate =>
        change (w'.loop.release gate).opened = (w.loop.release gate).opened
        simp [Loop.release, Loop.isOpen, h]
      | register resolver address => exact h
      | _ => cases ha
    · rw [List.filter_cons_of_neg ha]
      refine ih (tidy_apply envs hw a) hw' (h.trans (opened_apply hw fun gate e => ?_).symm)
      exact ha (e ▸ rfl)

/-! ## Nobody has asked for anything -/

/-- There are no walks, nothing is due, and every file is as it was added. -/
structure Quiet (w : World) : Prop where
  walks : w.walks = []
  jobs : w.loop = { opened := w.loop.opened }
  records : ∀ id r, w.store.record? id = some r → ∃ text : String, r = { text }

theorem quiet_initial (options : Options) (libName : String) (registries : Nat → Registry) :
    (initial options libName registries).Quiet :=
  ⟨rfl, rfl, fun id r hr => by simp [initial, Store.record?, Store.generations] at hr⟩

theorem Quiet.add (h : w.Quiet) (name text : String) : (w.add name text).Quiet := by
  refine ⟨(walks_add w name text).trans h.walks, ?_, fun id r hr => ?_⟩
  · rw [loop_add]
    exact h.jobs
  · rw [store_add, Store.record?_add] at hr
    split at hr
    · exact ⟨text, (Option.some.inj hr).symm⟩
    · exact h.records id r hr

theorem Quiet.addAll (h : w.Quiet) (texts : List String) :
    (w.run envs (texts.map (.add name))).Quiet := by
  induction texts generalizing w with
  | nil => exact h
  | cons text rest ih => exact ih (h.add name text)

theorem Quiet.outward (envs : Nat → Environment) (h : w.Quiet) (actions : List Action) :
    (w.run envs (actions.filter Action.isOutward)).Quiet ∧
      (w.run envs (actions.filter Action.isOutward)).store = w.store := by
  induction actions generalizing w with
  | nil => exact ⟨h, rfl⟩
  | cons a rest ih =>
    cases a with
    | register resolver address =>
      exact ih (w := w.register resolver address) ⟨h.walks, h.jobs, h.records⟩
    | release gate =>
      have hloop : w.loop.release gate = { opened := (w.loop.release gate).opened } := by
        rw [h.jobs]
        rfl
      exact ih (w := w.release gate) ⟨h.walks, hloop, h.records⟩
    | _ => exact ih h

theorem generations_addAll (w : World) (name : String) (texts : List String) :
    ((w.run envs (texts.map (.add name))).store.generations name).length =
      (w.store.generations name).length + texts.length := by
  induction texts generalizing w with
  | nil => rfl
  | cons text rest ih =>
    refine (ih (w.add name text)).trans ?_
    rw [store_add, Store.generations_add, if_pos rfl, List.length_append, List.length_singleton,
      List.length_cons]
    omega

theorem opened_addAll (hw : w.Tidy) (texts : List String) :
    (w.run envs (texts.map (.add name))).loop.opened = w.loop.opened := by
  induction texts generalizing w with
  | nil => rfl
  | cons text rest ih =>
    exact (ih (tidy_apply envs hw (.add name text))).trans (opened_apply hw nofun)

theorem declarations_outward (resolver : Nat) (actions : List Action) :
    declarations resolver (actions.filter Action.isOutward) = declarations resolver actions := by
  induction actions with
  | nil => rfl
  | cons a rest ih =>
    cases a with
    | register k address =>
      simp only [declarations] at ih ⊢
      rw [List.filter_cons_of_pos rfl, List.filterMap_cons, List.filterMap_cons, ih]
    | _ => exact ih

theorem declarations_addAll (resolver : Nat) (texts : List String) :
    declarations resolver (texts.map (.add name)) = [] := by
  induction texts with
  | nil => rfl
  | cons text rest ih => exact ih

/-- **Without a single request**: the same registrations and the same gates as in a run, and as many
files of a name as there are in a world. -/
def quietly (before : List Action) (w : World) (name : String) : List Action :=
  before.filter Action.isOutward ++ ((w.store.generations name).map Record.text).map (.add name)

/-- A file that was just added is new, and so is its lane. -/
theorem lane?_add_next (hw : w.Tidy) (name text : String) :
    (w.add name text).lane? (w.store.next name) = some (Lane.fresh text w.loop.opened) := by
  obtain ⟨hjobs, hlog⟩ := hw.silent (w.store.next name) (Store.record?_next _ _)
  have hlog' : (w.add name text).log.filter (Event.isOf (w.store.next name)) = [] := by
    unfold World.add
    split
    · change (w.log ++ [Event.notice (.replacing name)]).filter _ = []
      rw [List.filter_append, hlog]
      rfl
    · exact hlog
  refine lane?_eq_some.mpr ⟨?_, ?_, hlog'.symm⟩
  · rw [store_add, Store.record?_add, if_pos rfl]
    rfl
  · rw [loop_add, hjobs]
    rfl

section Quietly

variable {options : Options} {libName : String} {registries : Nat → Registry} {start : World}

/-- The world that `quietly` leads to. -/
theorem quietly_spec (envs : Nat → Environment)
    (hstart : start = initial options libName registries) (before : List Action) (name : String) :
    (start.run envs (quietly before (start.run envs before) name)).Quiet ∧
      (start.run envs (quietly before (start.run envs before) name)).store.next name =
        (start.run envs before).store.next name ∧
      (start.run envs (quietly before (start.run envs before) name)).loop.opened =
        (start.run envs before).loop.opened ∧
      (start.run envs (quietly before (start.run envs before) name)).registries =
        (start.run envs before).registries := by
  have htidy : start.Tidy := hstart ▸ tidy_initial options libName registries
  have hquiet : start.Quiet := hstart ▸ quiet_initial options libName registries
  obtain ⟨houtward, hstore⟩ := hquiet.outward envs before
  have htidy' := tidy_run envs htidy (before.filter Action.isOutward)
  have hnone : start.store.generations name = [] := by
    rw [hstart]
    rfl
  rw [quietly, run_append]
  refine ⟨houtward.addAll _, ?_, ?_, ?_⟩
  · rw [Store.next, generations_addAll, hstore, hnone, List.length_map]
    simp [Store.next]
  · exact (opened_addAll htidy' _).trans (opened_run htidy htidy rfl before)
  · funext k
    rw [registries_run envs htidy', declarations_addAll, registries_run envs htidy,
      registries_run envs htidy, declarations_outward]
    rfl

/-- **A file that is added quietly** is as new as one that is added in the run, and only it is at
work. -/
theorem add_quietly (envs : Nat → Environment)
    (hstart : start = initial options libName registries) (before : List Action)
    (name text : String) {w calm : World} (hw : w = start.run envs before)
    (hcalm : calm = (start.run envs (quietly before w name)).add name text) :
    Sole (w.store.next name) calm ∧ calm.store.options = w.store.options ∧
      calm.registries = w.registries ∧
      calm.lane? (w.store.next name) = some (Lane.fresh text w.loop.opened) := by
  have htidy : start.Tidy := hstart ▸ tidy_initial options libName registries
  subst hw hcalm
  obtain ⟨hquiet, hnext, hopened, hregistries⟩ := quietly_spec envs hstart before name
  have hoptions : (start.run envs (quietly before (start.run envs before) name)).store.options =
      (start.run envs before).store.options := by
    rw [options_run htidy, options_run htidy]
  have hcalm := tidy_run envs htidy (quietly before (start.run envs before) name)
  generalize start.run envs (quietly before (start.run envs before) name) = calm at *
  have hquiet' := hquiet.add name text
  have hlane := lane?_add_next hcalm name text
  rw [hnext, hopened] at hlane
  refine ⟨⟨tidy_apply envs hcalm (.add name text), ?_, hquiet'.walks, ?_, fun l hl => ?_⟩, ?_, ?_,
    hlane⟩
  · rw [store_add, Store.current?_add, ← hnext]
    exact if_pos rfl
  · rw [hquiet'.jobs]
    rfl
  · obtain rfl := Option.some.inj (hlane.symm.trans hl)
    rfl
  · rw [store_add]
    exact hoptions
  · refine Eq.trans ?_ hregistries
    unfold World.add
    split <;> rfl

end Quietly

end World

end DepGraph
