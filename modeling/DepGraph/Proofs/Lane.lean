import Mathlib.Data.List.Induction
import DepGraph.Proofs.Inquiries

/-!
# What concerns one file

All files share one queue. A `Lane` is what concerns one of them: its record, its jobs among those
that are due and those that wait, and its events. Whatever happens in the world, a lane is changed
in few ways only: its own first job is carried out, or it is touched from outside.

* `World.lane?` — the lane of a file.
* `Lane.turn` — the file's job that is due first is carried out.
* `Lane.Touch` — the ways in which a lane is touched from outside.
* `World.Moves.touches` — what moves do to a lane.
* `World.Tidy` — work logs under its own name, and what is not there has no jobs and no events.
-/

set_option autoImplicit false

namespace DepGraph

/-- What concerns one file. -/
structure Lane where
  record : Record
  loop : Loop FileJob
  log : List Event

/-- The lane of a file. -/
def World.lane? (w : World) (id : FileId) : Option Lane :=
  (w.store.record? id).map fun record =>
    { record, loop := w.loop.select (Job.of? id), log := w.log.filter (Event.isOf id) }

namespace Lane

/-- The lane of a file that was just added. -/
def fresh (text : String) (opened : List Gate) : Lane :=
  { record := { text }, loop := { opened }, log := [] }

/-- The file's job that is due first is carried out. -/
def turn (id : FileId) (registries : Nat → Registry) (l : Lane) : Lane :=
  match l.loop.next? with
  | none => l
  | some (job, loop) =>
    let done := l.record.perform (fun job => job) id.name registries loop job
    { record := done.record, loop := done.loop, log := l.log ++ done.events.filter (Event.isOf id) }

/-- With nothing due, a turn changes nothing. -/
theorem turn_of_none {l : Lane} (h : l.loop.next? = none) (id : FileId)
    (registries : Nat → Registry) : l.turn id registries = l := by
  simp [turn, h]

/-- The resolution starts. -/
def start (env : Environment) (options : Options) (resolver : Nat) (id : FileId)
    (found : Extraction) (l : Lane) : Lane :=
  { record := l.record.start found (World.workOf env options resolver id found)
    loop := l.loop.post (.join .launch)
    log := l.log ++ [.extracting id l.record.text] }

/-- The cell of the record is changed. -/
def setCell (l : Lane) (cell : Cell WalkRef Fault Dependencies) : Lane :=
  { l with record := { l.record with cell } }

/-- Action `a` cancels a waiter of the lane: it is the waiter itself that gives up, or the walk that
listens to it is cancelled. -/
def Cancels (id : FileId) (a : Action) (l : Lane) (waiter : Nat) : Prop :=
  a = .giveUp id waiter ∨ ∃ k place x, a = .cancelWalk k ∧
    l.record.cell.waiters[waiter]? = some x ∧ x.listener = some ⟨k, place⟩

/-- The ways in which action `a` may touch the lane of a file. -/
inductive Touch (env : Nat → Environment) (options : Options) (id : FileId) (a : Action) :
    Lane → Lane → Prop
  /-- Its text is read in vain: it is unreadable, or there is no loop to start on. -/
  | read {l : Lane} (hs : l.record.cell.stage = .unstarted)
    (h : (∃ k name, a = .resolveWithoutLoop k name) ∨
      ∃ k cause, (env k).extract l.record.text = .error cause) :
    Touch env options id a l { l with log := l.log ++ [.extracting id l.record.text] }
  | start {l : Lane} {resolver : Nat} {found : Extraction} {notices : List Notice}
    (hs : l.record.cell.stage = .unstarted)
    (he : (env resolver).extract l.record.text = .ok (found, notices))
    (h : a = .resolve resolver id.name ∨ a = .tick) :
    Touch env options id a l (l.start (env resolver) options resolver id found)
  | join {l : Lane} (listener : Option WalkRef) (hs : l.record.cell.stage ≠ .unstarted) :
    Touch env options id a l (l.setCell (l.record.cell.join listener))
  | giveUp {l : Lane} {waiter : Nat} (h : l.Cancels id a waiter) :
    Touch env options id a l (l.setCell (l.record.cell.giveUp waiter).1)
  | write {l : Lane} {text : String} (h : a = .setText id.name text) :
    Touch env options id a l { l with record := { l.record with text } }
  | release {l : Lane} {gate : Gate} (h : a = .release gate) :
    Touch env options id a l { l with loop := l.loop.release gate }

/-- A run of touches. -/
abbrev Touches (env : Nat → Environment) (options : Options) (id : FileId) (a : Action) :
    Lane → Lane → Prop :=
  Relation.ReflTransGen (Touch env options id a)

end Lane

namespace World

variable {env : Nat → Environment} {a : Action} {w w' : World} {id : FileId} {l : Lane}

theorem lane?_eq_some : w.lane? id = some l ↔
    w.store.record? id = some l.record ∧ l.loop = w.loop.select (Job.of? id) ∧
      l.log = w.log.filter (Event.isOf id) := by
  obtain ⟨record, loop, log⟩ := l
  simp only [lane?, Option.map_eq_some_iff, Lane.mk.injEq]
  constructor
  · rintro ⟨r, hr, rfl, rfl, rfl⟩
    exact ⟨hr, rfl, rfl⟩
  · rintro ⟨hr, rfl, rfl⟩
    exact ⟨record, hr, rfl, rfl, rfl⟩

theorem lane?_of_record? {r : Record} (hr : w.store.record? id = some r) :
    w.lane? id = some ⟨r, w.loop.select (Job.of? id), w.log.filter (Event.isOf id)⟩ :=
  lane?_eq_some.mpr ⟨hr, rfl, rfl⟩

theorem lane?_eq_none : w.lane? id = none ↔ w.store.record? id = none := by
  simp [lane?]

theorem outcome?_of_lane {l : Lane} (hl : w.lane? id = some l) (k : Nat) :
    w.outcome? id k = l.record.cell.waiters[k]?.bind (·.outcome) := by
  simp [outcome?, (lane?_eq_some.mp hl).1]

/-- The lanes of two worlds with the same records, jobs and events of a file. -/
theorem lane?_congr (hr : w'.store.record? id = w.store.record? id)
    (hj : w'.loop.select (Job.of? id) = w.loop.select (Job.of? id))
    (hl : w'.log.filter (Event.isOf id) = w.log.filter (Event.isOf id)) :
    w'.lane? id = w.lane? id := by
  simp [lane?, hr, hj, hl]

theorem Aside.lane? (h : Aside w w') (id : FileId) : w'.lane? id = w.lane? id := by
  obtain ⟨events, hlog, hforeign⟩ := h.log
  refine lane?_congr (by rw [h.store]) (h.jobs _ (Job.of?_walk id)) ?_
  rw [hlog, List.filter_append, Event.filter_foreign hforeign, List.append_nil]

theorem lane?_alert (w : World) (listener : Option WalkRef) (id : FileId) :
    (w.alert listener).lane? id = w.lane? id := by
  cases listener with
  | none => rfl
  | some ref => exact (aside_post_walk w ref.walk (.resolved ref.place)).lane? id

theorem lane?_modifyFile (w : World) (other : FileId) (change : Record → Record) (id : FileId) :
    (w.modifyFile other change).lane? id =
      if id = other then (w.lane? id).map fun l => { l with record := change l.record }
      else w.lane? id := by
  by_cases h : id = other
  · subst h
    cases hr : w.store.record? id <;> simp [World.lane?, modifyFile, hr]
  · simp [World.lane?, modifyFile, h]

/-! ## The lanes after a move -/

theorem lane?_release (w : World) (gate : Gate) (id : FileId) :
    (w.release gate).lane? id =
      (w.lane? id).map fun l => { l with loop := l.loop.release gate } := by
  cases hr : w.store.record? id <;> simp [World.lane?, release, hr, Loop.select_release]

theorem lane?_add (w : World) (name text : String) {id : FileId} {l : Lane}
    (hl : w.lane? id = some l) : (w.add name text).lane? id = some l := by
  have hne : id ≠ w.store.next name := by
    rintro rfl
    rw [lane?_eq_none.mpr (Store.record?_next _ _)] at hl
    cases hl
  have hadd : ∀ w' : World, w'.store = w.store →
      ({ w' with store := w'.store.add name text } : World).lane? id = w'.lane? id := by
    intro w' hstore
    refine lane?_congr ?_ rfl rfl
    rw [hstore]
    exact (Store.record?_add _ _ _ _).trans (if_neg hne)
  rw [← hl]
  unfold add
  split
  · exact (hadd (w.note (.replacing name)) rfl).trans ((aside_note w (.replacing name)).lane? id)
  · exact hadd w rfl

theorem setText_touches (w : World) (name text : String) {id : FileId} {l : Lane}
    (hl : w.lane? id = some l) (options : Options) :
    ∃ l', (w.setText name text).lane? id = some l' ∧
      Lane.Touches env options id (.setText name text) l l' := by
  unfold setText
  split
  · rename_i current hcurrent
    rw [lane?_modifyFile]
    split
    · rename_i heq
      subst heq
      obtain rfl := Store.current?_name hcurrent
      exact ⟨_, by rw [hl]; rfl, .single (.write rfl)⟩
    · exact ⟨l, hl, .refl⟩
  · exact ⟨l, hl, .refl⟩

theorem giveUp_touches (w : World) (other : FileId) (waiter : Nat) {id : FileId} {l : Lane}
    (hl : w.lane? id = some l) (options : Options) (ha : w.Cancels a other waiter) :
    ∃ l', (w.giveUp other waiter).lane? id = some l' ∧ Lane.Touches env options id a l l' := by
  unfold giveUp
  split
  · exact ⟨l, hl, .refl⟩
  · rename_i r hr
    simp only [lane?_alert, lane?_modifyFile]
    split
    · rename_i heq
      subst heq
      obtain rfl : l.record = r := Option.some.inj ((lane?_eq_some.mp hl).1.symm.trans hr)
      have hby : l.Cancels id a waiter := by
        cases ha with
        | waiter => exact .inl rfl
        | walk hlistens =>
          obtain ⟨r, x, hr', hx, hlistener⟩ := hlistens
          obtain rfl := Option.some.inj (hr.symm.trans hr')
          exact .inr ⟨_, _, x, rfl, hx, hlistener⟩
      exact ⟨_, by rw [hl]; rfl, .single (.giveUp hby)⟩
    · exact ⟨l, hl, .refl⟩

theorem lane?_join (w : World) (other : FileId) (listener : Option WalkRef) {id : FileId} {l : Lane}
    (hl : w.lane? id = some l) :
    (w.join other listener).lane? id =
      if id = other then some (l.setCell (l.record.cell.join listener)) else some l := by
  rw [join, lane?_modifyFile, hl]
  rfl

/-- A file's text is read: that is logged for this file. -/
theorem lane?_read (w : World) (other : FileId) (text : String) {id : FileId} {l : Lane}
    (hl : w.lane? id = some l) :
    (w.read other text).lane? id =
      if id = other then some { l with log := l.log ++ [.extracting id text] } else some l := by
  obtain ⟨hr, hloop, hlog⟩ := lane?_eq_some.mp hl
  by_cases h : id = other
  · subst h
    rw [if_pos rfl]
    refine lane?_eq_some.mpr ⟨hr, hloop, ?_⟩
    simp [read, record, note, hlog, Event.isOf]
  · rw [if_neg h]
    refine lane?_eq_some.mpr ⟨hr, hloop, ?_⟩
    simp [read, record, note, hlog, Event.isOf, Ne.symm h]

theorem lane?_start (env : Environment) (w : World) (resolver : Nat) (other : FileId)
    (found : Extraction) {id : FileId} {l : Lane} (hl : w.lane? id = some l) :
    (w.start env resolver other found).lane? id =
      if id = other then some { l with
        record := l.record.start found (workOf env w.store.options resolver id found)
        loop := l.loop.post (.join .launch) } else some l := by
  obtain ⟨hr, hloop, hlog⟩ := lane?_eq_some.mp hl
  by_cases h : id = other
  · subst h
    rw [if_pos rfl]
    refine lane?_eq_some.mpr ⟨by simp [start, modifyFile, post, hr], ?_, hlog⟩
    simp [start, modifyFile, post, hloop]
  · rw [if_neg h]
    refine lane?_eq_some.mpr ⟨by simp [start, modifyFile, post, h, hr], ?_, hlog⟩
    simp [start, modifyFile, post, hloop, Job.of?_other (Ne.symm h)]

theorem lane?_begin (env : Environment) (w : World) (resolver : Nat) (other : FileId)
    (text : String) (found : Extraction) (notices : List Notice) {id : FileId} {l : Lane}
    (hl : w.lane? id = some l) (ht : id = other → l.record.text = text) :
    (w.begin env resolver other text found notices).lane? id =
      if id = other then some (l.start env w.store.options resolver id found) else some l := by
  have hnotices : ∀ e ∈ notices.map Event.notice, e.Foreign := by simp
  have hread := ((aside_record hnotices).lane? id).trans (lane?_read w other text hl)
  by_cases h : id = other
  · rw [if_pos h] at hread ⊢
    refine (lane?_start env _ resolver other found hread).trans ((if_pos h).trans ?_)
    rw [← ht h]
    rfl
  · rw [if_neg h] at hread ⊢
    exact (lane?_start env _ resolver other found hread).trans (if_neg h)

/-- A request does nothing to the lane of a file that it does not find. -/
theorem lane?_resolve_other (env : Environment) (w : World) {resolver : Nat} {name : String}
    {listener : Option WalkRef} {id : FileId} {l : Lane} (hl : w.lane? id = some l)
    (hid : w.store.current? name ≠ some id) :
    (w.resolve env resolver name listener).1.lane? id = some l := by
  rcases resolve_spec env w resolver name listener with ⟨_, h⟩ | ⟨current, r, hcurrent, hr, hcases⟩
  · rw [h]
    exact hl
  have hne : id ≠ current := by
    rintro rfl
    exact hid hcurrent
  rcases hcases with ⟨_, cause, _, h⟩ | ⟨_, found, notices, _, h⟩ | ⟨_, h⟩ <;> rw [h]
  · exact (lane?_read w current _ hl).trans (if_neg hne)
  · have hbegin := (lane?_begin env w resolver current r.text found notices hl
      fun h => absurd h hne).trans (if_neg hne)
    exact (lane?_join _ current listener hbegin).trans (if_neg hne)
  · exact (lane?_join w current listener hl).trans (if_neg hne)

theorem resolve_touches (w : World) {resolver : Nat} {name : String} {listener : Option WalkRef}
    {id : FileId} {l : Lane} (hl : w.lane? id = some l) (ha : w.Asks a resolver name listener) :
    ∃ l', (w.resolve (env resolver) resolver name listener).1.lane? id = some l' ∧
      Lane.Touches env w.store.options id a l l' := by
  rcases resolve_spec (env resolver) w resolver name listener with
    ⟨_, h⟩ | ⟨current, r, hcurrent, hr, hcases⟩
  · exact ⟨l, by rw [h]; exact hl, .refl⟩
  have hrecord : id = current → l.record = r := fun h =>
    Option.some.inj ((lane?_eq_some.mp hl).1.symm.trans (h ▸ hr))
  by_cases hid : id = current
  · obtain rfl := hrecord hid
    subst hid
    have hby : a = .resolve resolver id.name ∨ a = .tick := by
      rw [Store.current?_name hcurrent]
      cases ha with
      | request => exact .inl rfl
      | walk => exact .inr rfl
    rcases hcases with ⟨hs, cause, he, h⟩ | ⟨hs, found, notices, he, h⟩ | ⟨hs, h⟩
    · exact ⟨_, by rw [h]; exact (lane?_read w id _ hl).trans (if_pos rfl),
        .single (.read hs (.inr ⟨_, _, he⟩))⟩
    · have hbegin :=
        (lane?_begin (env resolver) w resolver id _ found notices hl fun _ => rfl).trans
          (if_pos rfl)
      refine ⟨_, by rw [h]; exact (lane?_join _ id listener hbegin).trans (if_pos rfl), ?_⟩
      exact .tail (.single (.start hs he hby)) (.join listener (Cell.begun_stage_ne _))
    · exact ⟨_, by rw [h]; exact (lane?_join w id listener hl).trans (if_pos rfl),
        .single (.join listener hs)⟩
  · refine ⟨l, lane?_resolve_other _ w hl ?_, .refl⟩
    rw [hcurrent]
    exact fun h => hid (Option.some.inj h).symm

theorem resolveWithoutLoop_touches (w : World) {resolver : Nat} {name : String} {id : FileId}
    {l : Lane} (hl : w.lane? id = some l) :
    ∃ l', (w.resolveWithoutLoop (env resolver) name none).1.lane? id = some l' ∧
      Lane.Touches env w.store.options id (.resolveWithoutLoop resolver name) l l' := by
  rcases resolveWithoutLoop_spec (env resolver) w name none with
    ⟨_, h⟩ | ⟨current, r, hcurrent, hr, hcases⟩
  · exact ⟨l, by rw [h]; exact hl, .refl⟩
  have hrecord : id = current → l.record = r := fun h =>
    Option.some.inj ((lane?_eq_some.mp hl).1.symm.trans (h ▸ hr))
  have hnotices : ∀ (w' : World) (notices : List Notice),
      (w'.record (notices.map .notice)).lane? id = w'.lane? id := fun w' notices =>
    (aside_record (by simp)).lane? id
  by_cases hid : id = current
  · obtain rfl := hrecord hid
    subst hid
    have hread := (lane?_read w id l.record.text hl).trans (if_pos rfl)
    rcases hcases with ⟨hs, cause, he, h⟩ | ⟨hs, found, notices, he, h⟩ | ⟨hs, h⟩
    · exact ⟨_, by rw [h]; exact hread, .single (.read hs (.inr ⟨_, _, he⟩))⟩
    · exact ⟨_, by rw [h]; exact (hnotices _ _).trans hread, .single (.read hs (.inl ⟨_, _, rfl⟩))⟩
    · exact ⟨_, by rw [h]; exact (lane?_join w id none hl).trans (if_pos rfl),
        .single (.join none hs)⟩
  · have hread := (lane?_read w current r.text hl).trans (if_neg hid)
    refine ⟨l, ?_, .refl⟩
    rcases hcases with ⟨_, cause, _, h⟩ | ⟨_, found, notices, _, h⟩ | ⟨_, h⟩ <;> rw [h]
    · exact hread
    · exact (hnotices _ _).trans hread
    · exact (lane?_join w current none hl).trans (if_neg hid)

theorem kept_modifyFile (w : World) (id : FileId) (change : Record → Record) :
    w.store.Kept (w.modifyFile id change).store := Store.kept_modify _ _ _

theorem kept_resolve (env : Environment) (w : World) (resolver : Nat) (name : String)
    (listener : Option WalkRef) :
    w.store.Kept (w.resolve env resolver name listener).1.store := by
  rcases resolve_spec env w resolver name listener with
    ⟨_, h⟩ | ⟨_, _, _, _, ⟨_, _, _, h⟩ | ⟨_, _, _, _, h⟩ | ⟨_, h⟩⟩ <;> rw [h]
  · exact .refl _
  · exact .refl _
  · exact (Store.kept_modify _ _ _).trans (Store.kept_modify _ _ _)
  · exact Store.kept_modify _ _ _

/-- A move adds a file or changes records in place. -/
theorem Move.kept (h : Move env a w w') :
    (∃ name text, w' = w.add name text ∧ (a = .add name text ∨ a = .tick)) ∨
      w.store.Kept w'.store := by
  cases h with
  | aside h => exact .inr (h.store ▸ .refl _)
  | add name text h => exact .inl ⟨name, text, rfl, h⟩
  | setText =>
    right
    unfold World.setText
    split
    · exact kept_modifyFile _ _ _
    · exact .refl _
  | register => exact .inr (.refl _)
  | release => exact .inr (.refl _)
  | ask => exact .inr (kept_resolve _ _ _ _ _)
  | askWithoutLoop =>
    rename_i resolver name _
    right
    rcases resolveWithoutLoop_spec (env resolver) w name none with
      ⟨_, h⟩ | ⟨_, _, _, _, ⟨_, _, _, h⟩ | ⟨_, _, _, _, h⟩ | ⟨_, h⟩⟩ <;> rw [h]
    · exact .refl _
    · exact .refl _
    · exact .refl _
    · exact Store.kept_modify _ _ _
  | giveUp =>
    right
    unfold World.giveUp
    split
    · exact .refl _
    · simp only [alert]
      split <;> exact kept_modifyFile _ _ _

theorem store_add (w : World) (name text : String) :
    (w.add name text).store = w.store.add name text := by
  unfold World.add
  split <;> rfl

theorem loop_add (w : World) (name text : String) : (w.add name text).loop = w.loop := by
  unfold World.add
  split <;> rfl

theorem Move.options (h : Move env a w w') : w'.store.options = w.store.options := by
  rcases h.kept with ⟨name, text, rfl, -⟩ | h
  · rw [store_add]
    rfl
  · exact h.options

/-- **What a move does to a lane**: it touches it from outside. -/
theorem Move.touches (h : Move env a w w') {id : FileId} {l : Lane} (hl : w.lane? id = some l) :
    ∃ l', w'.lane? id = some l' ∧ Lane.Touches env w.store.options id a l l' := by
  cases h with
  | aside h => exact ⟨l, (h.lane? id).trans hl, .refl⟩
  | add name text => exact ⟨l, lane?_add w name text hl, .refl⟩
  | setText h => exact h ▸ setText_touches w _ _ hl _
  | register => exact ⟨l, ((aside_note _ _).lane? id).trans hl, .refl⟩
  | release h => exact ⟨_, by rw [lane?_release, hl]; rfl, .single (.release h)⟩
  | ask h => exact resolve_touches w hl h
  | askWithoutLoop h => exact h ▸ resolveWithoutLoop_touches w hl
  | giveUp h => exact giveUp_touches w _ _ hl _ h

theorem Moves.options (h : Moves env a w w') : w'.store.options = w.store.options := by
  induction h with
  | refl => rfl
  | tail _ hmove ih => exact hmove.options.trans ih

theorem Moves.touches (h : Moves env a w w') {id : FileId} {l : Lane} (hl : w.lane? id = some l) :
    ∃ l', w'.lane? id = some l' ∧ Lane.Touches env w.store.options id a l l' := by
  induction h with
  | refl => exact ⟨l, hl, .refl⟩
  | tail hmoves hmove ih =>
    obtain ⟨l₁, hl₁, htouch₁⟩ := ih
    obtain ⟨l₂, hl₂, htouch₂⟩ := hmove.touches hl₁
    rw [Moves.options hmoves] at htouch₂
    exact ⟨l₂, hl₂, htouch₁.trans htouch₂⟩

/-! ## What is not there -/

/-- The file has neither jobs nor events. -/
def Silent (w : World) (id : FileId) : Prop :=
  w.loop.select (Job.of? id) = { opened := w.loop.opened } ∧ w.log.filter (Event.isOf id) = []

/-- Work logs under its own name, walks are proper, and what is not there is silent. -/
structure Tidy (w : World) : Prop where
  own : ∀ id r work, w.store.record? id = some r → r.work = some work →
    work.join.Logs (Event.Own id)
  walks : w.ProperWalks
  silent : ∀ id, w.store.record? id = none → w.Silent id
  inhabited : w.store.Inhabited

theorem Aside.silent (h : Aside w w') {id : FileId} (hs : w.Silent id) : w'.Silent id := by
  obtain ⟨events, hlog, hforeign⟩ := h.log
  refine ⟨by rw [h.jobs _ (Job.of?_walk id), h.loop.2]; exact hs.1, ?_⟩
  rw [hlog, List.filter_append, Event.filter_foreign hforeign, hs.2]
  rfl

theorem silent_post {other id : FileId} (h : other ≠ id) (hs : w.Silent id) (job : FileJob) :
    (w.post (.file other job)).Silent id :=
  ⟨by simp [post, Job.of?_other h, hs.1]; rfl, hs.2⟩

theorem silent_read {other id : FileId} (h : other ≠ id) (hs : w.Silent id) (text : String) :
    (w.read other text).Silent id :=
  ⟨hs.1, by simpa [read, record, note, Event.isOf, h] using hs.2⟩

theorem silent_alert {id : FileId} (hs : w.Silent id) (listener : Option WalkRef) :
    (w.alert listener).Silent id := by
  cases listener with
  | none => exact hs
  | some ref => exact (aside_post_walk w ref.walk (.resolved ref.place)).silent hs

theorem Move.silent (h : Move env a w w') {id : FileId} (hr : w.store.record? id = none)
    (hs : w.Silent id) : w'.Silent id := by
  have hother : ∀ {other : FileId} {r : Record}, w.store.record? other = some r → other ≠ id := by
    rintro other r hother rfl
    rw [hr] at hother
    cases hother
  have hnotices : ∀ (w' : World) (notices : List Notice), w'.Silent id →
      (w'.record (notices.map .notice)).Silent id := fun w' notices h =>
    (aside_record (by simp)).silent h
  cases h with
  | aside h => exact h.silent hs
  | add name text =>
    unfold World.add
    split
    · exact (aside_note w (.replacing name)).silent hs
    · exact hs
  | setText =>
    unfold World.setText
    split <;> exact hs
  | register => exact (aside_note _ _).silent hs
  | release =>
    refine ⟨?_, hs.2⟩
    simp only [World.release, Loop.select_release, hs.1]
    rfl
  | ask =>
    rename_i resolver name listener _
    rcases resolve_spec (env resolver) w resolver name listener with
      ⟨_, h⟩ | ⟨current, r, _, hcurrent, ⟨_, _, _, h⟩ | ⟨_, _, _, _, h⟩ | ⟨_, h⟩⟩ <;> rw [h]
    · exact hs
    · exact silent_read (hother hcurrent) hs _
    · exact silent_post (hother hcurrent) (hnotices _ _ (silent_read (hother hcurrent) hs _)) _
    · exact hs
  | askWithoutLoop =>
    rename_i resolver name _
    rcases resolveWithoutLoop_spec (env resolver) w name none with
      ⟨_, h⟩ | ⟨current, r, _, hcurrent, ⟨_, _, _, h⟩ | ⟨_, _, _, _, h⟩ | ⟨_, h⟩⟩ <;> rw [h]
    · exact hs
    · exact silent_read (hother hcurrent) hs _
    · exact hnotices _ _ (silent_read (hother hcurrent) hs _)
    · exact hs
  | giveUp =>
    unfold World.giveUp
    split
    · exact hs
    · exact silent_alert (w := w.modifyFile _ _) hs _

/-- A lane after a move was there before and was touched, or is that of a file just added. -/
theorem Move.lane_cases (h : Move env a w w') (hw : w.Tidy) {id : FileId} {l' : Lane}
    (hl' : w'.lane? id = some l') :
    (∃ l, w.lane? id = some l ∧ Lane.Touches env w.store.options id a l l') ∨
      w.lane? id = none ∧ ∃ text, l' = Lane.fresh text w.loop.opened := by
  cases hl : w.lane? id with
  | some l =>
    obtain ⟨l₁, hl₁, htouch⟩ := h.touches hl
    obtain rfl := Option.some.inj (hl₁.symm.trans hl')
    exact .inl ⟨l, rfl, htouch⟩
  | none =>
    have hr := lane?_eq_none.mp hl
    obtain ⟨hr', hloop, hlog⟩ := lane?_eq_some.mp hl'
    obtain ⟨hsilent, hquiet⟩ := h.silent hr (hw.silent id hr)
    rcases h.kept with ⟨name, text, rfl, -⟩ | hkept
    · refine .inr ⟨rfl, text, ?_⟩
      rw [store_add, Store.record?_add] at hr'
      split at hr'
      · obtain ⟨record, loop, log⟩ := l'
        have hopened : (w.add name text).loop.opened = w.loop.opened := by rw [loop_add]
        simp only [Option.some.injEq] at hr' hloop hlog
        rw [Lane.fresh, Lane.mk.injEq, hlog, hquiet, hloop, hsilent, hopened]
        exact ⟨hr'.symm, rfl, rfl⟩
      · rw [hr] at hr'
        cases hr'
    · rw [(hkept.record?_none id).mpr hr] at hr'
      cases hr'

end World

/-! ## Work logs under its own name -/

theorem World.workOf_own (env : Environment) (options : Options) (resolver : Nat) (id : FileId)
    (found : Extraction) : (workOf env options resolver id found).join.Logs (Event.Own id) := by
  refine Join.logs_ofScripts fun s hs => ?_
  obtain ⟨i, hi, rfl⟩ := List.mem_mapIdx.mp hs
  exact Inquiry.script_own _ _ _ _ _

/-- Whether an event is the reading of the text of a file. -/
def Event.isReading (id : FileId) : Event → Bool
  | .extracting file _ => file = id
  | _ => false

/-- The work of a file reads no text. -/
theorem World.workOf_reads_nothing (env : Environment) (options : Options) (resolver : Nat)
    (id other : FileId) (found : Extraction) :
    (workOf env options resolver id found).join.Logs fun e => e.isReading other = false := by
  refine Join.logs_ofScripts fun s hs => ?_
  obtain ⟨i, hi, rfl⟩ := List.mem_mapIdx.mp hs
  exact Inquiry.script_logs env id i (fun _ => rfl) (fun _ _ => rfl) (fun _ _ => rfl) 0 _

/-- The work of a record logs only what satisfies `p`. -/
def Record.Logs (p : Event → Prop) (r : Record) : Prop :=
  ∀ work, r.work = some work → work.join.Logs p

theorem Record.Logs.perform {J : Type} [DecidableEq J] {p : Event → Prop} {r : Record}
    (h : r.Logs p) (hn : ∀ n, p (.notice n)) (wrap : FileJob → J) (file : String)
    (registries : Nat → Registry) (loop : Loop J) (job : FileJob) :
    (∀ e ∈ (r.perform wrap file registries loop job).events, p e) ∧
      (r.perform wrap file registries loop job).record.Logs p := by
  refine Record.perform_induction (motive := fun done => (∀ e ∈ done.events, p e) ∧
    done.record.Logs p) (fun _ => ⟨by simp, h⟩) ⟨by simp, h⟩ (fun work _ addresses => ?_)
    (fun work hwork ending => ?_) (fun work hwork job => ?_) job
  · exact ⟨by simp [complete, hn], h⟩
  · refine ⟨by simp [fail, finish], ?_⟩
    rintro work' ⟨rfl⟩
    exact (h work hwork).stop
  · obtain ⟨hevents, hafter⟩ := (h work hwork).perform (fun j => wrap (.join j)) loop job
    refine ⟨hevents, ?_⟩
    rintro work' ⟨rfl⟩
    exact hafter

namespace Lane

variable {env : Nat → Environment} {options : Options} {id : FileId} {a : Action} {l l' : Lane}

theorem Touch.own (h : Touch env options id a l l') (hl : l.record.Logs (Event.Own id)) :
    l'.record.Logs (Event.Own id) := by
  cases h with
  | read => exact hl
  | start =>
    rintro work ⟨rfl⟩
    exact World.workOf_own _ _ _ _ _
  | join => exact hl
  | giveUp => exact hl
  | write => exact hl
  | release => exact hl

theorem Touches.own (h : Touches env options id a l l') (hl : l.record.Logs (Event.Own id)) :
    l'.record.Logs (Event.Own id) := by
  induction h with
  | refl => exact hl
  | tail _ htouch ih => exact htouch.own ih

theorem turn_own (hl : l.record.Logs (Event.Own id)) (registries : Nat → Registry) :
    (l.turn id registries).record.Logs (Event.Own id) := by
  unfold turn
  split
  · exact hl
  · exact (hl.perform (fun n => (Event.foreign_notice n).own id) _ _ _ _ _).2

end Lane

namespace World

variable {env : Nat → Environment} {a : Action} {w w' : World}

theorem Tidy.lane_own (hw : w.Tidy) {id : FileId} {l : Lane} (hl : w.lane? id = some l) :
    l.record.Logs (Event.Own id) :=
  fun work => hw.own id l.record work (lane?_eq_some.mp hl).1

theorem tidy_of_lanes (hown : ∀ id l, w.lane? id = some l → l.record.Logs (Event.Own id))
    (hwalks : w.ProperWalks) (hsilent : ∀ id, w.store.record? id = none → w.Silent id)
    (hinhabited : w.store.Inhabited) : w.Tidy := by
  refine ⟨fun id r work hr => ?_, hwalks, hsilent, hinhabited⟩
  exact hown id _ (lane?_of_record? hr) work

/-- Whoever waits for a file goes on to wait for it. -/
theorem Move.grows (h : Move env a w w') : w.store.Grows w'.store := by
  cases h with
  | aside h => exact h.store ▸ .refl _
  | add name text =>
    rw [store_add]
    exact Store.grows_add _ _ _
  | setText =>
    unfold World.setText
    split
    · exact Store.grows_modify fun _ _ => .refl _
    · exact .refl _
  | register => exact .refl _
  | release => exact .refl _
  | ask => exact grows_resolve _ _ _ _ _
  | askWithoutLoop =>
    rename_i resolver name _
    rcases resolveWithoutLoop_spec (env resolver) w name none with
      ⟨_, h⟩ | ⟨_, _, _, _, ⟨_, _, _, h⟩ | ⟨_, _, _, _, h⟩ | ⟨_, h⟩⟩ <;> rw [h]
    · exact .refl _
    · exact .refl _
    · exact .refl _
    · exact grows_join _ _ _
  | giveUp => exact grows_giveUp _ _ _

theorem Moves.grows (h : Moves env a w w') : w.store.Grows w'.store := by
  induction h with
  | refl => exact .refl _
  | tail _ hmove ih => exact ih.trans hmove.grows

theorem Move.walks (h : Move env a w w') (hw : w.ProperWalks) : w'.ProperWalks := by
  have hgrows := h.grows
  cases h with
  | aside h => exact h.walks hw
  | add name text => exact hw.grows (walks_add w name text) hgrows
  | setText =>
    refine hw.grows ?_ hgrows
    unfold World.setText
    split <;> rfl
  | register => exact hw
  | release => exact hw
  | ask => exact hw.grows (walks_resolve _ w _ _ _) hgrows
  | askWithoutLoop =>
    rename_i resolver name _
    refine hw.grows ?_ hgrows
    rcases resolveWithoutLoop_spec (env resolver) w name none with
      ⟨_, h⟩ | ⟨_, _, _, _, ⟨_, _, _, h⟩ | ⟨_, _, _, _, h⟩ | ⟨_, h⟩⟩ <;> rw [h] <;> rfl
  | giveUp => exact hw.grows (walks_giveUp w _ _) hgrows

theorem Move.tidy (h : Move env a w w') (hw : w.Tidy) : w'.Tidy := by
  refine tidy_of_lanes (fun id l' hl' => ?_) (h.walks hw.walks) (fun id hr => ?_) ?_
  · rcases h.lane_cases hw hl' with ⟨l, hl, htouch⟩ | ⟨_, text, rfl⟩
    · exact htouch.own (hw.lane_own hl)
    · rintro work ⟨⟩
  · have hr₀ : w.store.record? id = none := by
      rcases h.kept with ⟨name, text, rfl, -⟩ | hkept
      · rw [store_add, Store.record?_add] at hr
        split at hr
        · cases hr
        · exact hr
      · exact (hkept.record?_none id).mp hr
    exact h.silent hr₀ (hw.silent id hr₀)
  · rcases h.kept with ⟨name, text, rfl, -⟩ | hkept
    · rw [store_add]
      exact hw.inhabited.add name text
    · exact hkept.inhabited hw.inhabited

theorem Moves.tidy (h : Moves env a w w') (hw : w.Tidy) : w'.Tidy := by
  induction h with
  | refl => exact hw
  | tail _ hmove ih => exact hmove.tidy ih

theorem Moves.lane_cases (h : Moves env a w w') (hw : w.Tidy) {id : FileId} {l' : Lane}
    (hl' : w'.lane? id = some l') :
    (∃ l, w.lane? id = some l ∧ Lane.Touches env w.store.options id a l l') ∨
      w.lane? id = none ∧ ∃ text opened, Lane.Touches env w.store.options id a
        (Lane.fresh text opened) l' := by
  induction h generalizing l' with
  | refl => exact .inl ⟨l', hl', .refl⟩
  | @tail w₁ w₂ hmoves hmove ih =>
    rcases hmove.lane_cases (Moves.tidy hmoves hw) hl' with ⟨l₁, hl₁, htouch₁⟩ | ⟨hnone, text, rfl⟩
    · rw [Moves.options hmoves] at htouch₁
      rcases ih hl₁ with ⟨l, hl, htouch⟩ | ⟨hnone, text, opened, htouch⟩
      · exact .inl ⟨l, hl, htouch.trans htouch₁⟩
      · exact .inr ⟨hnone, text, opened, htouch.trans htouch₁⟩
    · refine .inr ⟨?_, text, _, .refl⟩
      cases hl : w.lane? id with
      | none => rfl
      | some l =>
        obtain ⟨l₁, hl₁, _⟩ := Moves.touches hmoves hl
        rw [hnone] at hl₁
        cases hl₁

end World

end DepGraph
