import DepGraph.Proofs.Heedless
import DepGraph.Proofs.Runs

/-!
# A part of the files

The files of some names are a part of a world. A world is restricted to such a part if nothing else
is in it: the other files, their jobs, calls and the walks are left out. What is done to a file of
the part is done to the restricted world in the same way, and what is done to any other file is not
seen there.

* `Event.within`, `Job.within?`, `Action.within` — events, jobs and actions of the part.
* `World.Restricts` — one world is another, restricted to a part.
* `World.Restricts.resolve`, `World.Restricts.resolve_other` and the like — what is done to a file
  of the part is done in both, what is done to any other file only in the whole.
* `World.Restricts.performFile`, `World.Restricts.performFile_other` — and so are the jobs.
* `World.Restricts.moves` — what a walk does to the files of the part, done without the walk.
-/

set_option autoImplicit false

namespace DepGraph

variable {part : String → Bool}

/-! ## What belongs to a part -/

/-- Whether an event is a call, or the reading of the text, of a file of the part. -/
def Event.within (part : String → Bool) : Event → Bool
  | .called caller _ => part caller.file.name
  | .cancelled caller _ => part caller.file.name
  | .extracting file _ => part file.name
  | _ => false

/-- The job, if it is one of a file of the part. -/
def Job.within? (part : String → Bool) : Job → Option Job
  | .file id job => if part id.name then some (.file id job) else none
  | .walk .. => none

/-- Whether an action is done to a file of the part, or, like a registration, to no file at all. -/
def Action.within (part : String → Bool) : Action → Bool
  | .add name _ | .setText name _ | .resolve _ name | .resolveWithoutLoop _ name => part name
  | .giveUp id _ => part id.name
  | .register .. | .release _ => true
  | .tick | .walk .. | .cancelWalk _ => false

/-- Whether an action may be the doing of a walk. -/
def Action.isWalked : Action → Bool
  | .tick | .cancelWalk _ => true
  | _ => false

/-- What a walk may do to a file: in a tick it adds files and asks for them, and when it is
cancelled it gives up waiting for them. -/
def Action.brings : Action → Action → Bool
  | .tick, .add .. | .tick, .resolve .. | .cancelWalk _, .giveUp .. => true
  | _, _ => false

theorem Event.within_iff {e : Event} :
    e.within part = true ↔ ∃ id, part id.name = true ∧ e.isOf id = true := by
  cases e <;> simp [within, isOf]

theorem Event.filter_within_foreign {events : List Event} (h : ∀ e ∈ events, e.Foreign) :
    events.filter (Event.within part) = [] := by
  refine List.filter_eq_nil_iff.mpr fun e he hwithin => ?_
  obtain ⟨id, -, hof⟩ := within_iff.mp hwithin
  simp [h e he id] at hof

theorem Event.filter_within_own {id : FileId} {events : List Event} (h : ∀ e ∈ events, e.Own id)
    (hid : part id.name = false) : events.filter (Event.within part) = [] := by
  refine List.filter_eq_nil_iff.mpr fun e he hwithin => ?_
  obtain ⟨other, hother, hof⟩ := within_iff.mp hwithin
  rw [h e he other hof, hid] at hother
  cases hother

theorem Job.within?_file {id : FileId} (h : part id.name = true) (job : FileJob) :
    Job.within? part (.file id job) = some (.file id job) := by
  simp [within?, h]

theorem Job.within?_other {id : FileId} (h : part id.name = false) (job : FileJob) :
    Job.within? part (.file id job) = none := by
  simp [within?, h]

theorem Job.within?_walk (k : Nat) (job : WalkJob) : Job.within? part (.walk k job) = none := rfl

theorem Job.within?_carries {id : FileId} (h : part id.name = true) :
    Loop.Carries (Job.within? part) (Job.file id) (Job.file id) := by
  intro j job
  cases j with
  | file other job' =>
    by_cases hother : part other.name = true
    · simp [within?, hother]
    · have hne : other ≠ id := by
        rintro rfl
        exact hother h
      simp [within?, hother, hne]
  | walk k job' => simp [within?]

/-- Where nobody listens, the resolution of a file leaves the same on its part of the loop, and
nobody is to learn of it. -/
theorem Record.perform_select_heedless {J K : Type} [DecidableEq J] [DecidableEq K]
    {f : J → Option K} {wrap : FileJob → J} {wrap' : FileJob → K} (h : Loop.Carries f wrap wrap')
    (r : Record) (file : String) (registries : Nat → Registry) (loop : Loop J) (job : FileJob) :
    r.heedless.perform wrap' file registries (loop.select f) job =
      { record := (r.perform wrap file registries loop job).record.heedless
        loop := (r.perform wrap file registries loop job).loop.select f
        events := (r.perform wrap file registries loop job).events } := by
  obtain ⟨hrecord, hloop, hevents⟩ := r.perform_heedless wrap' file registries (loop.select f) job
  have hnobody := listener_perform r.heedless_heedless wrap' file registries (loop.select f) job
  rw [← perform_select h r file registries loop job] at hrecord hloop hevents
  generalize r.heedless.perform wrap' file registries (loop.select f) job = done at *
  obtain ⟨record, loop', events, listener⟩ := done
  cases hrecord
  cases hloop
  cases hevents
  cases hnobody
  rfl

namespace World

variable {env : Environment} {envs : Nat → Environment} {w w' w₂ : World} {id : FileId}
  {name text : String} {a b : Action}

/-- The second world is the first, restricted to a part of the files: their records are the same but
for who listens, their jobs are due or wait in the same order, and their calls were the same. -/
structure Restricts (part : String → Bool) (w w' : World) : Prop where
  options : w'.store.options = w.store.options
  registries : w'.registries = w.registries
  contains : ∀ name, part name = true → w'.store.contains name = w.store.contains name
  generations : ∀ name, part name = true →
    w'.store.generations name = (w.store.generations name).map Record.heedless
  loop : w'.loop = w.loop.select (Job.within? part)
  log : w'.log.filter (Event.within part) = w.log.filter (Event.within part)
  walks : w'.walks = []

namespace Restricts

/-! ## What is found in the restricted world -/

theorem current? (h : Restricts part w w') (hname : part name = true) :
    w'.store.current? name = w.store.current? name := by
  simp [Store.current?, h.contains name hname, h.generations name hname]

theorem record? (h : Restricts part w w') (hid : part id.name = true) :
    w'.store.record? id = (w.store.record? id).map Record.heedless := by
  simp [Store.record?, h.generations id.name hid]

/-- What is found in the world is found in the restricted world. -/
theorem found (h : Restricts part w w') (hname : part name = true) {r : Record}
    (hid : w.store.current? name = some id) (hr : w.store.record? id = some r) :
    part id.name = true ∧ w'.store.current? name = some id ∧
      w'.store.record? id = some r.heedless := by
  have hpart : part id.name = true := Store.current?_name hid ▸ hname
  exact ⟨hpart, (h.current? hname).trans hid, by rw [h.record? hpart, hr, Option.map_some]⟩

theorem find?_none (h : Restricts part w w') (hname : part name = true)
    (hnone : w.store.find? name = none) : w'.store.find? name = none := by
  unfold Store.find? at hnone ⊢
  rw [h.current? hname]
  cases hid : w.store.current? name with
  | none => rfl
  | some id =>
    rw [hid] at hnone
    have hr : w.store.record? id = none := hnone
    rw [Option.bind_some, h.record? (Store.current?_name hid ▸ hname), hr]
    rfl

/-! ## Single changes -/

theorem withLoop (h : Restricts part w w') (loop : Loop Job) :
    Restricts part { w with loop } { w' with loop := loop.select (Job.within? part) } :=
  { h with loop := rfl }

theorem withLoop_other (h : Restricts part w w') {loop : Loop Job}
    (hloop : loop.select (Job.within? part) = w.loop.select (Job.within? part)) :
    Restricts part { w with loop } w' :=
  { h with loop := h.loop.trans hloop.symm }

theorem record {events : List Event} (h : Restricts part w w') :
    Restricts part (w.record events) (w'.record events) :=
  { h with log := by simp [World.record, h.log] }

theorem record_other {events : List Event} (h : Restricts part w w')
    (hevents : events.filter (Event.within part) = []) : Restricts part (w.record events) w' :=
  { h with log := by simp [World.record, h.log, hevents] }

theorem note (h : Restricts part w w') (n : Notice) : Restricts part (w.note n) (w'.note n) :=
  h.record

theorem note_other (h : Restricts part w w') (n : Notice) : Restricts part (w.note n) w' :=
  h.record_other rfl

theorem modifyFile (h : Restricts part w w') {change change' : Record → Record}
    (hchange : ∀ r, change' r.heedless = (change r).heedless) (id : FileId) :
    Restricts part (w.modifyFile id change) (w'.modifyFile id change') :=
  { h with
    contains := fun name hname => by simp [World.modifyFile, h.contains name hname]
    generations := fun name hname => by
      have hmap : ∀ rs : List Record, (rs.map Record.heedless).modify id.generation change' =
          (rs.modify id.generation change).map Record.heedless := by
        intro rs
        refine List.ext_getElem? fun i => ?_
        by_cases hi : id.generation = i <;> cases hr : rs[i]? <;> simp [hi, hr, hchange]
      simp only [World.modifyFile, Store.generations_modify, h.generations name hname]
      split
      · exact hmap _
      · rfl }

theorem modifyFile_other (h : Restricts part w w') (hid : part id.name = false)
    (change : Record → Record) : Restricts part (w.modifyFile id change) w' :=
  { h with
    contains := fun name hname => by simp [World.modifyFile, h.contains name hname]
    generations := fun name hname => by
      have hne : name ≠ id.name := by
        rintro rfl
        rw [hid] at hname
        cases hname
      simp [World.modifyFile, Store.generations_modify, hne, h.generations name hname] }

theorem post (h : Restricts part w w') (hid : part id.name = true) (job : FileJob) :
    Restricts part (w.post (.file id job)) (w'.post (.file id job)) :=
  { h with
    loop := by
      simp only [World.post, Loop.select_post, Job.within?_file hid, h.loop]
      rfl }

theorem post_other (h : Restricts part w w') {job : Job} (hjob : Job.within? part job = none) :
    Restricts part (w.post job) w' :=
  h.withLoop_other (by simp [hjob])

theorem alert (h : Restricts part w w') (listener : Option WalkRef) :
    Restricts part (w.alert listener) w' := by
  cases listener with
  | none => exact h
  | some ref => exact h.post_other rfl

theorem aside (h : Restricts part w w') (haside : Aside w w₂) : Restricts part w₂ w' := by
  obtain ⟨events, hlog, hforeign⟩ := haside.log
  refine ⟨haside.store ▸ h.options, haside.registries ▸ h.registries,
    haside.store ▸ h.contains, haside.store ▸ h.generations, ?_, ?_, h.walks⟩
  · rw [haside.jobs _ Job.within?_walk, h.loop]
  · rw [hlog, List.filter_append, Event.filter_within_foreign hforeign, List.append_nil, h.log]

/-! ## Files are added and changed -/

theorem log_add (w : World) (name text : String) :
    (w.add name text).log.filter (Event.within part) = w.log.filter (Event.within part) := by
  unfold World.add
  split
  · simp [World.note, World.record, Event.within]
  · rfl

theorem add (h : Restricts part w w') (name text : String) :
    Restricts part (w.add name text) (w'.add name text) where
  options := by simpa only [store_add, Store.options_add] using h.options
  registries := by
    have hkept : ∀ v : World, (v.add name text).registries = v.registries := by
      intro v
      unfold World.add
      split <;> rfl
    rw [hkept, hkept, h.registries]
  contains other hother := by
    simp only [store_add, Store.contains_add, h.contains other hother]
  generations other hother := by
    simp only [store_add, Store.generations_add]
    split
    · rename_i hname
      subst hname
      rw [h.generations other hother, List.map_append]
      rfl
    · exact h.generations other hother
  loop := by rw [loop_add, loop_add, h.loop]
  log := by rw [log_add, log_add, h.log]
  walks := (walks_add w' name text).trans h.walks

theorem add_other (h : Restricts part w w') (hname : part name = false) (text : String) :
    Restricts part (w.add name text) w' := by
  have hne : ∀ other, part other = true → other ≠ name := by
    rintro other hother rfl
    rw [hname] at hother
    cases hother
  refine ⟨?_, ?_, fun other hother => ?_, fun other hother => ?_, ?_, ?_, h.walks⟩
  · simpa only [store_add, Store.options_add] using h.options
  · rw [h.registries]
    unfold World.add
    split <;> rfl
  · simp [store_add, Store.contains_add, hne other hother, h.contains other hother]
  · simp [store_add, Store.generations_add, hne other hother, h.generations other hother]
  · rw [loop_add, h.loop]
  · rw [log_add, h.log]

theorem setText (h : Restricts part w w') (hname : part name = true) (text : String) :
    Restricts part (w.setText name text) (w'.setText name text) := by
  unfold World.setText
  rw [h.current? hname]
  cases w.store.current? name with
  | none => exact h
  | some id =>
    refine h.modifyFile (fun r => ?_) id
    rfl

theorem setText_other (h : Restricts part w w') (hname : part name = false) (text : String) :
    Restricts part (w.setText name text) w' := by
  unfold World.setText
  cases hid : w.store.current? name with
  | none => exact h
  | some id => exact h.modifyFile_other (Store.current?_name hid ▸ hname) _

theorem register (h : Restricts part w w') (resolver : Nat) (address : String) :
    Restricts part (w.register resolver address) (w'.register resolver address) := by
  unfold World.register
  rw [h.registries]
  refine Restricts.note ?_ _
  exact { h with registries := rfl }

theorem release (h : Restricts part w w') (gate : Gate) :
    Restricts part (w.release gate) (w'.release gate) :=
  { h with
    loop := by
      change w'.loop.release gate = (w.loop.release gate).select _
      rw [Loop.select_release, h.loop] }

/-! ## Requests -/

theorem join (h : Restricts part w w') (id : FileId) (listener : Option WalkRef) :
    Restricts part (w.join id listener) (w'.join id none) :=
  h.modifyFile (fun r => by simp [Record.heedless, Cell.join_heedless]) id

theorem read (h : Restricts part w w') (id : FileId) (text : String) :
    Restricts part (w.read id text) (w'.read id text) :=
  h.record.record

theorem read_other (h : Restricts part w w') (hid : part id.name = false) (text : String) :
    Restricts part (w.read id text) w' :=
  (h.note_other _).record_other (by simp [Event.within, hid])

theorem start (h : Restricts part w w') (hid : part id.name = true) (env : Environment)
    (resolver : Nat) (found : Extraction) :
    Restricts part (w.start env resolver id found) (w'.start env resolver id found) := by
  unfold World.start
  rw [h.options]
  refine (h.modifyFile (fun r => ?_) id).post hid _
  rfl

theorem start_other (h : Restricts part w w') (hid : part id.name = false) (env : Environment)
    (resolver : Nat) (found : Extraction) :
    Restricts part (w.start env resolver id found) w' :=
  (h.modifyFile_other hid _).post_other (Job.within?_other hid _)

theorem resolve (h : Restricts part w w') (hname : part name = true) (env : Environment)
    (resolver : Nat) (listener : Option WalkRef) :
    Restricts part (w.resolve env resolver name listener).1
      (w'.resolve env resolver name none).1 := by
  rcases find?_cases w name with hnone | ⟨id, r, hid, hr⟩
  · rw [resolve_missing hnone, resolve_missing (h.find?_none hname hnone)]
    exact h
  obtain ⟨hpart, hid', hr'⟩ := h.found hname hid hr
  by_cases hs : r.cell.stage = .unstarted
  · cases he : env.extract r.text with
    | error cause =>
      rw [resolve_unreadable hid hr hs he, resolve_unreadable hid' hr' hs he]
      exact h.read id _
    | ok result =>
      obtain ⟨found, notices⟩ := result
      rw [resolve_first hid hr hs he, resolve_first hid' hr' hs he]
      exact (((h.read id _).record).start hpart env resolver found).join id listener
  · rw [resolve_later hid hr hs, resolve_later hid' hr' hs]
    exact h.join id listener

theorem resolve_other (h : Restricts part w w') (hname : part name = false) (env : Environment)
    (resolver : Nat) (listener : Option WalkRef) :
    Restricts part (w.resolve env resolver name listener).1 w' := by
  rcases resolve_spec env w resolver name listener with
    ⟨-, h'⟩ | ⟨id, r, hid, -, ⟨-, cause, -, h'⟩ | ⟨-, found, notices, -, h'⟩ | ⟨-, h'⟩⟩ <;> rw [h']
  · exact h
  all_goals have hpart : part id.name = false := Store.current?_name hid ▸ hname
  · exact h.read_other hpart _
  · refine (Restricts.start_other ?_ hpart env resolver found).modifyFile_other hpart _
    exact (h.read_other hpart _).record_other (Event.filter_within_foreign (by simp))
  · exact h.modifyFile_other hpart _

theorem resolveWithoutLoop (h : Restricts part w w') (hname : part name = true)
    (env : Environment) :
    Restricts part (w.resolveWithoutLoop env name none).1
      (w'.resolveWithoutLoop env name none).1 := by
  rcases find?_cases w name with hnone | ⟨id, r, hid, hr⟩
  · rw [resolveWithoutLoop_missing hnone,
      resolveWithoutLoop_missing (h.find?_none hname hnone)]
    exact h
  obtain ⟨-, hid', hr'⟩ := h.found hname hid hr
  by_cases hs : r.cell.stage = .unstarted
  · cases he : env.extract r.text with
    | error cause =>
      rw [resolveWithoutLoop_unreadable hid hr hs he, resolveWithoutLoop_unreadable hid' hr' hs he]
      exact h.read id _
    | ok result =>
      obtain ⟨found, notices⟩ := result
      rw [resolveWithoutLoop_first hid hr hs he, resolveWithoutLoop_first hid' hr' hs he]
      exact (h.read id _).record
  · rw [resolveWithoutLoop_later hid hr hs, resolveWithoutLoop_later hid' hr' hs]
    exact h.join id none

theorem resolveWithoutLoop_other (h : Restricts part w w') (hname : part name = false)
    (env : Environment) : Restricts part (w.resolveWithoutLoop env name none).1 w' := by
  rcases resolveWithoutLoop_spec env w name none with
    ⟨-, h'⟩ | ⟨id, r, hid, -, ⟨-, cause, -, h'⟩ | ⟨-, found, notices, -, h'⟩ | ⟨-, h'⟩⟩ <;> rw [h']
  · exact h
  all_goals have hpart : part id.name = false := Store.current?_name hid ▸ hname
  · exact h.read_other hpart _
  · exact (h.read_other hpart _).record_other (Event.filter_within_foreign (by simp))
  · exact h.modifyFile_other hpart _

theorem giveUp (h : Restricts part w w') (hid : part id.name = true) (waiter : Nat) :
    Restricts part (w.giveUp id waiter) (w'.giveUp id waiter) := by
  unfold World.giveUp
  rw [h.record? hid]
  cases w.store.record? id with
  | none => exact h
  | some r =>
    have hheedless : r.heedless.cell.heedless = r.heedless.cell := Cell.heedless_heedless _
    have hcell : (r.cell.giveUp waiter).1.heedless = (r.heedless.cell.giveUp waiter).1 :=
      Cell.settleWaiter_heedless _ _ _
    have hnobody : (r.heedless.cell.giveUp waiter).2 = none :=
      Cell.settleWaiter_of_heedless hheedless _ _
    simp only [Option.map_some, hnobody]
    refine (h.modifyFile (fun r' => ?_) id).alert _
    simp only [Record.heedless] at hcell ⊢
    rw [hcell]

theorem giveUp_other (h : Restricts part w w') (hid : part id.name = false) (waiter : Nat) :
    Restricts part (w.giveUp id waiter) w' := by
  unfold World.giveUp
  cases w.store.record? id with
  | none => exact h
  | some r => exact (h.modifyFile_other hid _).alert _

/-! ## Jobs -/

/-- **A job of a file of the part** does the same in both. -/
theorem performFile (h : Restricts part w w') (hid : part id.name = true) (job : FileJob) :
    Restricts part (w.performFile id job) (w'.performFile id job) := by
  unfold World.performFile
  rw [h.record? hid]
  cases w.store.record? id with
  | none => exact h
  | some r =>
    have hdone : r.heedless.perform (.file id) id.name w'.registries w'.loop job =
        { record := (r.perform (.file id) id.name w.registries w.loop job).record.heedless
          loop := (r.perform (.file id) id.name w.registries w.loop job).loop.select
            (Job.within? part)
          events := (r.perform (.file id) id.name w.registries w.loop job).events } := by
      rw [h.registries, h.loop]
      exact Record.perform_select_heedless (Job.within?_carries hid) r id.name _ _ job
    simp only [Option.map_some, hdone]
    refine (((h.withLoop _).modifyFile (fun _ => ?_) id).record).alert _
    rfl

/-- A job of any other file is not seen. -/
theorem performFile_other (h : Restricts part w w')
    (hown : ∀ r, w.store.record? id = some r → r.Logs (Event.Own id)) (hid : part id.name = false)
    (job : FileJob) : Restricts part (w.performFile id job) w' := by
  unfold World.performFile
  cases hr : w.store.record? id with
  | none => exact h
  | some r =>
    obtain ⟨hevents, -⟩ := (hown r hr).perform (fun n => (Event.foreign_notice n).own id) (.file id)
      id.name w.registries w.loop job
    have hloop := Record.perform_select_none (fun j => Job.within?_other hid j) r id.name
      w.registries w.loop job
    exact (((h.withLoop_other hloop).modifyFile_other hid _).record_other
      (Event.filter_within_own hevents hid)).alert _

/-! ## Walks -/

/-- **What is done by a walk**, file by file, is done without it: files of the part are added, asked
for and given up as the walk does. -/
theorem move (h : Restricts part w w') (hmove : Move envs a w w₂) (ha : a.isWalked = true) :
    ∃ steps, (∀ b ∈ steps, b.within part = true ∧ a.brings b = true) ∧
      Restricts part w₂ (w'.run envs steps) := by
  have hnothing : ∀ v, Restricts part v w' → ∃ steps,
      (∀ b ∈ steps, b.within part = true ∧ a.brings b = true) ∧
        Restricts part v (w'.run envs steps) := fun v hv => ⟨[], by simp, hv⟩
  have hstep : ∀ b v, b.within part = true → a.brings b = true →
      Restricts part v (w'.apply envs b) → ∃ steps,
        (∀ b ∈ steps, b.within part = true ∧ a.brings b = true) ∧
          Restricts part v (w'.run envs steps) :=
    fun b v hpart hbrings hv => ⟨[b], by simp [hpart, hbrings], hv⟩
  cases hmove with
  | aside haside => exact hnothing _ (h.aside haside)
  | add name text hadd =>
    obtain rfl : a = .tick := hadd.resolve_left (by rintro rfl; cases ha)
    cases hname : part name with
    | true => exact hstep (.add name text) _ hname rfl (h.add name text)
    | false => exact hnothing _ (h.add_other hname text)
  | setText hset => cases hset ▸ ha
  | register hregister => cases hregister ▸ ha
  | release hrelease => cases hrelease ▸ ha
  | @ask resolver name listener hasks =>
    obtain rfl : a = .tick := by
      cases hasks with
      | request => cases ha
      | walk => rfl
    cases hname : part name with
    | true => exact hstep (.resolve resolver name) _ hname rfl (h.resolve hname _ _ _)
    | false => exact hnothing _ (h.resolve_other hname _ _ _)
  | askWithoutLoop hasks => cases hasks ▸ ha
  | @giveUp id waiter hcancels =>
    obtain ⟨k, rfl⟩ : ∃ k, a = .cancelWalk k := by
      cases hcancels with
      | waiter => cases ha
      | walk => exact ⟨_, rfl⟩
    cases hid : part id.name with
    | true => exact hstep (.giveUp id waiter) _ hid rfl (h.giveUp hid waiter)
    | false => exact hnothing _ (h.giveUp_other hid waiter)

theorem moves (h : Restricts part w w') (hmoves : Moves envs a w w₂) (ha : a.isWalked = true) :
    ∃ steps, (∀ b ∈ steps, b.within part = true ∧ a.brings b = true) ∧
      Restricts part w₂ (w'.run envs steps) := by
  induction hmoves with
  | refl => exact ⟨[], by simp, h⟩
  | tail _ hmove ih =>
    obtain ⟨steps, hsteps, hrest⟩ := ih
    obtain ⟨more, hmore, hafter⟩ := hrest.move hmove ha
    refine ⟨steps ++ more, fun b hb => ?_, ?_⟩
    · exact (List.mem_append.mp hb).elim (hsteps b) (hmore b)
    · rwa [run_append]

end Restricts

end World

end DepGraph
