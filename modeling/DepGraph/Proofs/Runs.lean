import Mathlib.Data.List.Induction
import DepGraph.Proofs.Lane

/-!
# What a run means for one file

* `World.tick_cases` — a tick carries out a job of a file, or one of a walk, which is made of moves.
* `World.tidy_run` — every run leaves a tidy world.
* `World.lane_apply` — what one action does to a lane.
* `World.lane_concat` — what the last action of a run does to a lane.
* `World.lane_run` — what every turn and every touch keeps holds of every lane of every run.
-/

set_option autoImplicit false

namespace DepGraph.World

variable {env : Nat → Environment} {a : Action} {w w' : World}

/-! ## Jobs -/

theorem next?_select {J K : Type} {f : J → Option K} {job : J} {k : K} {loop loop' : Loop J}
    (h : loop.next? = some (job, loop')) (hk : f job = some k) :
    (loop.select f).next? = some (k, loop'.select f) := by
  unfold Loop.next? at h
  split at h
  · cases h
  · rename_i first rest hready
    cases h
    simp [Loop.next?, Loop.select, hready, hk]

theorem select_next? {J K : Type} {f : J → Option K} {job : J} {loop loop' : Loop J}
    (h : loop.next? = some (job, loop')) (hk : f job = none) :
    loop'.select f = loop.select f := by
  unfold Loop.next? at h
  split at h
  · cases h
  · rename_i first rest hready
    cases h
    simp [Loop.select, hready, hk]

theorem opened_next? {J : Type} {job : J} {loop loop' : Loop J}
    (h : loop.next? = some (job, loop')) : loop'.opened = loop.opened := by
  unfold Loop.next? at h
  split at h
  · cases h
  · cases h
    rfl

theorem lane?_pop {job : Job} {loop : Loop Job} (h : w.loop.next? = some (job, loop)) {id : FileId}
    (hid : Job.of? id job = none) : ({ w with loop } : World).lane? id = w.lane? id :=
  lane?_congr rfl (select_next? h hid) rfl

/-- **A job of a file is a turn of its lane.** -/
theorem lane?_performFile {id : FileId} {job : FileJob} {loop : Loop Job} {l : Lane}
    (h : w.loop.next? = some (.file id job, loop)) (hl : w.lane? id = some l) :
    (({ w with loop } : World).performFile id job).lane? id = some (l.turn id w.registries) := by
  obtain ⟨hr, hloop, hlog⟩ := lane?_eq_some.mp hl
  have hnext : l.loop.next? = some (job, loop.select (Job.of? id)) := by
    rw [hloop]
    exact next?_select h (Job.of?_file id job)
  have hselect := Record.perform_select ((Job.of?_unwraps id).carries fun job => job) l.record
    id.name w.registries loop job
  have hturn : l.turn id w.registries =
      { record := (l.record.perform (.file id) id.name w.registries loop job).record
        loop := (l.record.perform (.file id) id.name w.registries loop job).loop.select (Job.of? id)
        log := l.log ++ (l.record.perform (.file id) id.name w.registries loop job).events.filter
          (Event.isOf id) } := by
    simp only [Lane.turn, hnext, ← hselect]
    rfl
  simp only [performFile, hr, lane?_alert]
  refine lane?_eq_some.mpr ⟨?_, ?_, ?_⟩
  · simp [hturn, record, modifyFile, hr]
  · rw [hturn]
    rfl
  · simp [hturn, record, modifyFile, hlog]

/-- The lanes of all others stay as they are. -/
theorem lane?_performFile_other (hw : w.Tidy) {id other : FileId} {job : FileJob} {loop : Loop Job}
    (h : w.loop.next? = some (.file other job, loop)) (hne : other ≠ id) :
    (({ w with loop } : World).performFile other job).lane? id = w.lane? id := by
  refine Eq.trans ?_ (lane?_pop h (Job.of?_other hne job))
  unfold performFile
  split
  · rfl
  · rename_i r hr
    have hlogs : r.Logs (Event.Own other) := fun work => hw.own other r work hr
    obtain ⟨hevents, -⟩ := hlogs.perform (fun n => (Event.foreign_notice n).own other)
      (.file other) other.name w.registries loop job
    simp only [lane?_alert]
    refine lane?_congr ?_ ?_ ?_
    · simp [record, modifyFile, Ne.symm hne]
    · exact Record.perform_select_none (fun j => Job.of?_other hne j) r other.name w.registries loop
        job
    · simp only [record, modifyFile, List.filter_append, Event.filter_own hevents (Ne.symm hne),
        List.append_nil]

theorem store_performFile (w : World) (id : FileId) (job : FileJob) :
    w.store.Kept (w.performFile id job).store := by
  unfold performFile
  split
  · exact .refl _
  · simp only [alert]
    split <;> exact kept_modifyFile _ _ _

theorem walks_performFile (w : World) (id : FileId) (job : FileJob) :
    (w.performFile id job).walks = w.walks := by
  unfold performFile
  split
  · rfl
  · simp

theorem joined_perform {J : Type} [DecidableEq J] (r : Record) (wrap : FileJob → J) (file : String)
    (registries : Nat → Registry) (loop : Loop J) (job : FileJob) :
    r.cell.Joined (r.perform wrap file registries loop job).record.cell :=
  Record.perform_induction (motive := fun done => r.cell.Joined done.record.cell)
    (fun _ => Cell.joined_tell _ _) (.refl _) (fun _ _ _ => .refl _) (fun _ _ _ => .refl _)
    (fun _ _ _ => .refl _) job

theorem text_perform {J : Type} [DecidableEq J] (r : Record) (wrap : FileJob → J) (file : String)
    (registries : Nat → Registry) (loop : Loop J) (job : FileJob) :
    (r.perform wrap file registries loop job).record.text = r.text :=
  Record.perform_induction (motive := fun done => done.record.text = r.text) (fun _ => rfl) rfl
    (fun _ _ _ => rfl) (fun _ _ _ => rfl) (fun _ _ _ => rfl) job

theorem grows_performFile (w : World) (id : FileId) (job : FileJob) :
    w.store.Grows (w.performFile id job).store := by
  unfold performFile
  split
  · exact .refl _
  · rename_i r hr
    have hgrows : w.store.Grows (w.store.modify id fun _ =>
        (r.perform (.file id) id.name w.registries w.loop job).record) := by
      refine Store.grows_modify fun r' hr' => ?_
      obtain rfl : r = r' := Option.some.inj (hr.symm.trans hr')
      exact joined_perform r _ _ _ _ _
    simp only [alert]
    split <;> exact hgrows

theorem tidy_performFile (hw : w.Tidy) {id : FileId} {job : FileJob} {loop : Loop Job}
    (h : w.loop.next? = some (.file id job, loop)) :
    (({ w with loop } : World).performFile id job).Tidy := by
  have hkept := store_performFile { w with loop } id job
  have hwalks : (({ w with loop } : World).performFile id job).ProperWalks :=
    hw.walks.grows (walks_performFile _ id job) (grows_performFile { w with loop } id job)
  refine tidy_of_lanes (fun other l' hl' => ?_) hwalks (fun other hr => ?_)
    (hkept.inhabited hw.inhabited)
  · cases hl : w.lane? other with
    | none =>
      have := (hkept.record?_none other).mpr (lane?_eq_none (w := w).mp hl)
      rw [lane?_eq_none.mpr this] at hl'
      cases hl'
    | some l =>
      by_cases hid : id = other
      · subst hid
        rw [lane?_performFile h hl] at hl'
        cases hl'
        exact Lane.turn_own (hw.lane_own hl) _
      · rw [lane?_performFile_other hw h hid, hl] at hl'
        cases hl'
        exact hw.lane_own hl
  · have hr₀ := (hkept.record?_none other).mp hr
    obtain ⟨hjobs, hlog⟩ := hw.silent other hr₀
    have hopened := opened_next? h
    have hne : id ≠ other := by
      rintro rfl
      have := next?_select h (Job.of?_file id job)
      rw [hjobs] at this
      cases this
    have hsilent : ({ w with loop } : World).Silent other :=
      ⟨(select_next? h (Job.of?_other hne job)).trans (hjobs.trans (by rw [hopened])), hlog⟩
    unfold performFile
    split
    · exact hsilent
    · rename_i r hrec
      have hlogs : r.Logs (Event.Own id) := fun work => hw.own id r work hrec
      obtain ⟨hevents, -⟩ := hlogs.perform (fun n => (Event.foreign_notice n).own id)
        (.file id) id.name w.registries loop job
      have hextends := Record.perform_extends (.file id) r id.name w.registries loop job
      apply silent_alert
      refine ⟨?_, ?_⟩
      · refine (Record.perform_select_none (fun j => Job.of?_other hne j) r id.name w.registries
          loop job).trans (hsilent.1.trans ?_)
        rw [← hextends.2]
        rfl
      · simp only [record, modifyFile, List.filter_append, Event.filter_own hevents (Ne.symm hne),
          hlog, List.append_nil]

/-! ## One action -/

/-- A tick does nothing, or carries out a job of a file, or carries out a job of a walk, which is
made of moves. -/
theorem tick_cases (env : Nat → Environment) (hw : w.Tidy) :
    w.loop.next? = none ∧ w.tick env = w ∨
    (∃ id job loop, w.loop.next? = some (.file id job, loop) ∧
      w.tick env = ({ w with loop } : World).performFile id job) ∨
    ∃ k job loop, w.loop.next? = some (.walk k job, loop) ∧
      Moves env .tick { w with loop } (w.tick env) := by
  unfold tick
  cases h : w.loop.next? with
  | none => exact .inl ⟨rfl, rfl⟩
  | some p =>
    obtain ⟨job, loop⟩ := p
    cases job with
    | file id job => exact .inr (.inl ⟨id, job, loop, rfl, rfl⟩)
    | walk k job =>
      refine .inr (.inr ⟨k, job, loop, rfl, ?_⟩)
      have hwalks : ({ w with loop } : World).ProperWalks := hw.walks
      exact performWalk_moves hwalks job

theorem tidy_pop (hw : w.Tidy) {k : Nat} {job : WalkJob} {loop : Loop Job}
    (h : w.loop.next? = some (.walk k job, loop)) : ({ w with loop } : World).Tidy := by
  refine ⟨hw.own, hw.walks, fun id hr => ?_, hw.inhabited⟩
  obtain ⟨hjobs, hlog⟩ := hw.silent id hr
  have hopened := opened_next? h
  exact ⟨(select_next? h rfl).trans (hjobs.trans (by rw [hopened])), hlog⟩

theorem tidy_apply (env : Nat → Environment) (hw : w.Tidy) (a : Action) :
    (w.apply env a).Tidy := by
  by_cases ha : a = .tick
  · subst ha
    change (w.tick env).Tidy
    rcases tick_cases env hw with ⟨_, h⟩ | ⟨id, job, loop, hnext, h⟩ | ⟨k, job, loop, hnext, h⟩
    · rwa [h]
    · rw [h]
      exact tidy_performFile hw hnext
    · exact h.tidy (tidy_pop hw hnext)
  · exact (apply_moves hw.walks ha).tidy hw

/-- Whoever waits for a file goes on to wait for it. -/
theorem grows_apply (env : Nat → Environment) (hw : w.Tidy) (a : Action) :
    w.store.Grows (w.apply env a).store := by
  by_cases ha : a = .tick
  · subst ha
    change w.store.Grows (w.tick env).store
    rcases tick_cases env hw with ⟨_, h⟩ | ⟨id, job, loop, hnext, h⟩ | ⟨k, job, loop, hnext, h⟩
    · rw [h]
      exact .refl _
    · rw [h]
      exact grows_performFile { w with loop } id job
    · exact h.grows
  · exact (apply_moves hw.walks ha).grows

theorem options_apply (hw : w.Tidy) (a : Action) :
    (w.apply env a).store.options = w.store.options := by
  by_cases ha : a = .tick
  · subst ha
    change (w.tick env).store.options = w.store.options
    rcases tick_cases env hw with ⟨_, h⟩ | ⟨id, job, loop, hnext, h⟩ | ⟨k, job, loop, hnext, h⟩
    · rw [h]
    · rw [h]
      exact (store_performFile { w with loop } id job).options
    · exact h.options
  · exact (apply_moves hw.walks ha).options

/-- **What one action does to a lane**: a tick is a turn of it, or it is touched from outside. -/
theorem lane_apply (env : Nat → Environment) (hw : w.Tidy) {id : FileId} {l : Lane}
    (hl : w.lane? id = some l) (a : Action) :
    ∃ l', (w.apply env a).lane? id = some l' ∧
      ((a = .tick ∧ (∃ job loop, w.loop.next? = some (.file id job, loop)) ∧
          l' = l.turn id w.registries) ∨
        Lane.Touches env w.store.options id a l l') := by
  by_cases ha : a = .tick
  · subst ha
    rcases tick_cases env hw with ⟨_, h⟩ | ⟨other, job, loop, hnext, h⟩ | ⟨k, job, loop, hnext, h⟩
    · exact ⟨l, (congrArg (·.lane? id) h).trans hl, .inr .refl⟩
    · by_cases hid : other = id
      · subst hid
        exact ⟨_, (congrArg (·.lane? other) h).trans (lane?_performFile hnext hl),
          .inl ⟨rfl, ⟨job, loop, hnext⟩, rfl⟩⟩
      · exact ⟨l, (congrArg (·.lane? id) h).trans ((lane?_performFile_other hw hnext hid).trans hl),
          .inr .refl⟩
    · obtain ⟨l', hl', htouch⟩ := Moves.touches h ((lane?_pop hnext rfl).trans hl)
      exact ⟨l', hl', .inr htouch⟩
  · obtain ⟨l', hl', htouch⟩ := Moves.touches (apply_moves hw.walks ha) hl
    exact ⟨l', hl', .inr htouch⟩

/-- A lane after an action was there before, or is that of a file just added, touched from
outside. -/
theorem lane_apply_cases (hw : w.Tidy) {id : FileId} {l' : Lane} {a : Action}
    (hl' : (w.apply env a).lane? id = some l') :
    (∃ l, w.lane? id = some l) ∨ w.lane? id = none ∧
      ∃ text opened, Lane.Touches env w.store.options id a (Lane.fresh text opened) l' := by
  cases hl : w.lane? id with
  | some l => exact .inl ⟨l, rfl⟩
  | none =>
    refine .inr ⟨rfl, ?_⟩
    by_cases ha : a = .tick
    · subst ha
      rcases tick_cases env hw with ⟨_, h⟩ | ⟨other, job, loop, hnext, h⟩ | ⟨k, job, loop, hnext, h⟩
      · rw [show w.apply env .tick = w from h, hl] at hl'
        cases hl'
      · rw [show w.apply env .tick = _ from h] at hl'
        have hkept := store_performFile { w with loop } other job
        rw [lane?_eq_none.mpr ((hkept.record?_none id).mpr (lane?_eq_none (w := w).mp hl))] at hl'
        cases hl'
      · rcases Moves.lane_cases h (tidy_pop hw hnext) hl' with ⟨l, hl₁, _⟩ | ⟨_, hfresh⟩
        · rw [lane?_pop hnext rfl, hl] at hl₁
          cases hl₁
        · exact hfresh
    · rcases Moves.lane_cases (apply_moves hw.walks ha) hw hl' with ⟨l, hl₁, _⟩ | ⟨_, hfresh⟩
      · rw [hl] at hl₁
        cases hl₁
      · exact hfresh

/-! ## Runs -/

/-- A world in which nothing has happened. -/
def initial (options : Options) (libName : String) (registries : Nat → Registry) : World :=
  { store := { options, libName }, registries }

theorem tidy_initial (options : Options) (libName : String) (registries : Nat → Registry) :
    (initial options libName registries).Tidy := by
  refine ⟨fun id r work hr => ?_, fun k x hx => ?_, fun id hr => ⟨rfl, rfl⟩, fun name hname => ?_⟩
  · simp [initial, Store.record?, Store.generations] at hr
  · simp [initial] at hx
  · simp [initial, Store.contains] at hname

theorem run_append (w : World) (before after : List Action) :
    w.run env (before ++ after) = (w.run env before).run env after :=
  List.foldl_append

theorem run_concat (w : World) (actions : List Action) (a : Action) :
    w.run env (actions ++ [a]) = (w.run env actions).apply env a := by
  simp [run]

theorem tidy_run (env : Nat → Environment) (hw : w.Tidy) (actions : List Action) :
    (w.run env actions).Tidy := by
  induction actions generalizing w with
  | nil => exact hw
  | cons a rest ih => exact ih (tidy_apply env hw a)

theorem grows_run (env : Nat → Environment) (hw : w.Tidy) (actions : List Action) :
    w.store.Grows (w.run env actions).store := by
  induction actions generalizing w with
  | nil => exact .refl _
  | cons a rest ih => exact (grows_apply env hw a).trans (ih (tidy_apply env hw a))

theorem options_run (hw : w.Tidy) (actions : List Action) :
    (w.run env actions).store.options = w.store.options := by
  induction actions generalizing w with
  | nil => rfl
  | cons a rest ih => exact (ih (tidy_apply env hw a)).trans (options_apply hw a)

/-- A file that was added is there for good. -/
theorem lane?_run_isSome (hw : w.Tidy) {id : FileId} {l : Lane} (hl : w.lane? id = some l)
    (actions : List Action) : ∃ l', (w.run env actions).lane? id = some l' := by
  induction actions generalizing w l with
  | nil => exact ⟨l, hl⟩
  | cons a rest ih =>
    obtain ⟨l₁, hl₁, _⟩ := lane_apply env hw hl a
    exact ih (tidy_apply env hw a) hl₁

/-- What every turn and every touch keeps is kept by every run. -/
theorem lane_run_of {P : Lane → Prop} {id : FileId} {options : Options}
    (hturn : ∀ l registries, P l → P (l.turn id registries))
    (htouch : ∀ a l l', Lane.Touch env options id a l l' → P l → P l')
    (hw : w.Tidy) (hoptions : w.store.options = options) {l l' : Lane} (hl : w.lane? id = some l)
    (hP : P l) (actions : List Action) (hl' : (w.run env actions).lane? id = some l') : P l' := by
  induction actions generalizing w l with
  | nil =>
    obtain rfl := Option.some.inj (hl.symm.trans hl')
    exact hP
  | cons a rest ih =>
    obtain ⟨l₁, hl₁, h | h⟩ := lane_apply env hw hl a
    · exact ih (tidy_apply env hw a) ((options_apply hw a).trans hoptions) hl₁
        (h.2.2 ▸ hturn l _ hP) hl'
    · refine ih (tidy_apply env hw a) ((options_apply hw a).trans hoptions) hl₁ ?_ hl'
      rw [hoptions] at h
      clear hl₁
      induction h with
      | refl => exact hP
      | tail _ hstep ihP => exact htouch a _ _ hstep ihP

/-- **The last action of a run**: the lane that it leaves had a turn, or was touched, or is that of
a file just added, touched from outside. -/
theorem lane_concat {id : FileId} (options : Options) (libName : String)
    (registries : Nat → Registry) (actions : List Action) (a : Action) {l' : Lane}
    (hl' : ((initial options libName registries).run env (actions ++ [a])).lane? id = some l') :
    (∃ l, ((initial options libName registries).run env actions).lane? id = some l ∧
      ((a = .tick ∧ ∃ registries', l' = l.turn id registries') ∨
        Lane.Touches env options id a l l')) ∨
    ((initial options libName registries).run env actions).lane? id = none ∧
      ∃ text opened, Lane.Touches env options id a (Lane.fresh text opened) l' := by
  rw [run_concat] at hl'
  have hw := tidy_run env (tidy_initial options libName registries) actions
  have hoptions : ((initial options libName registries).run env actions).store.options = options :=
    options_run (tidy_initial options libName registries) actions
  rcases lane_apply_cases hw hl' with ⟨l, hl⟩ | ⟨hnone, text, opened, h⟩
  · obtain ⟨l₁, hl₁, h⟩ := lane_apply env hw hl a
    obtain rfl := Option.some.inj (hl₁.symm.trans hl')
    rcases h with ⟨rfl, -, h⟩ | h
    · exact .inl ⟨l, hl, .inl ⟨rfl, _, h⟩⟩
    · exact .inl ⟨l, hl, .inr (hoptions ▸ h)⟩
  · exact .inr ⟨hnone, text, opened, hoptions ▸ h⟩

theorem lane?_initial (options : Options) (libName : String) (registries : Nat → Registry)
    (id : FileId) : (initial options libName registries).lane? id = none :=
  lane?_eq_none.mpr (by simp [initial, Store.record?, Store.generations])

/-- **What holds of every new file and is kept by every turn, every touch and the passing of time
holds of every lane of every run**, in view of what was done so far. -/
theorem lane_run_past {P : List Action → Lane → Prop} {id : FileId} {options : Options}
    (hfresh : ∀ past text opened, P past (Lane.fresh text opened))
    (hlater : ∀ past a l, P past l → P (past ++ [a]) l)
    (hturn : ∀ past l registries, P past l → P past (l.turn id registries))
    (htouch : ∀ past a l l', Lane.Touch env options id a l l' → P (past ++ [a]) l →
      P (past ++ [a]) l') (libName : String) (registries : Nat → Registry) (actions : List Action)
    {l : Lane} (hl : ((initial options libName registries).run env actions).lane? id = some l) :
    P actions l := by
  induction actions using List.reverseRec generalizing l with
  | nil =>
    have hl' : (initial options libName registries).lane? id = some l := hl
    rw [lane?_initial] at hl'
    cases hl'
  | append_singleton actions a ih =>
    have htouches : ∀ l₀ l', P (actions ++ [a]) l₀ → Lane.Touches env options id a l₀ l' →
        P (actions ++ [a]) l' := by
      intro l₀ l' hP h
      induction h with
      | refl => exact hP
      | tail _ hstep ihP => exact htouch actions a _ _ hstep ihP
    rcases lane_concat options libName registries actions a hl with
      ⟨l₀, hl₀, ⟨rfl, registries', rfl⟩ | h⟩ | ⟨_, text, opened, h⟩
    · exact hturn _ l₀ _ (hlater actions _ l₀ (ih hl₀))
    · exact htouches l₀ _ (hlater actions _ l₀ (ih hl₀)) h
    · exact htouches _ _ (hfresh _ text opened) h

/-- **What holds of every new file and is kept by every turn and every touch holds of every lane of
every run.** -/
theorem lane_run {P : Lane → Prop} {id : FileId} {options : Options}
    (hfresh : ∀ text opened, P (Lane.fresh text opened))
    (hturn : ∀ l registries, P l → P (l.turn id registries))
    (htouch : ∀ a l l', Lane.Touch env options id a l l' → P l → P l') (libName : String)
    (registries : Nat → Registry) (actions : List Action) {l : Lane}
    (hl : ((initial options libName registries).run env actions).lane? id = some l) : P l :=
  lane_run_past (P := fun _ => P) (fun _ => hfresh) (fun _ _ _ h => h) (fun _ => hturn)
    (fun _ => htouch) libName registries actions hl

end DepGraph.World
