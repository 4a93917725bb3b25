import DepGraph.Proofs.Numbering
import DepGraph.Proofs.Runs

/-!
# A world without some of the waiters of a file

Some waiters of a file are left out of a world: their entries in the file's cell, and the jobs that
tell them. The others are numbered anew, wherever their numbers stand. Whatever happens then
happens as before.

* `World.without` — a world without some waiters of a file.
* `World.Unheard` — nobody listens to those who are left out.
* `World.without_resolve`, `World.without_giveUp`, `World.without_performFile`,
  `World.without_performWalk` — requests and jobs, before and after.
* `World.without_apply` — every action.
-/

set_option autoImplicit false

namespace DepGraph

open DepGraph.Numbering

/-- The new number of a waiter, once some of those of file `id` are gone. -/
def FileId.number (id : FileId) (gone : List Nat) (other : FileId) (k : Nat) : Nat :=
  if other = id then rank gone k else k

/-- A record without some of its waiters. -/
def Record.without (gone : List Nat) (r : Record) : Record := { r with cell := r.cell.without gone }

/-- The record of file `other`, once some waiters of file `id` are gone. -/
def Record.spared (id : FileId) (gone : List Nat) (other : FileId) (r : Record) : Record :=
  if other = id then r.without gone else r

/-- What a walk is doing, once some waiters of file `id` are gone. -/
def Phase.without (id : FileId) (gone : List Nat) : Phase → Phase
  | .resolving waiters tally =>
    .resolving (waiters.map fun p => (p.1, id.number gone p.1 p.2)) tally
  | phase => phase

/-- A walk, once some waiters of file `id` are gone. -/
def Walk.without (id : FileId) (gone : List Nat) (x : Walk) : Walk :=
  { x with phase := x.phase.without id gone }

/-- A job, once some waiters of file `id` are gone: nobody is left to be told. -/
def Job.without (id : FileId) (gone : List Nat) : Job → Option Job
  | .file other (.tell k) =>
    if other = id ∧ k ∈ gone then none else some (.file other (.tell (id.number gone other k)))
  | job => some job

/-- A world without some of the waiters of a file. -/
def World.without (id : FileId) (gone : List Nat) (w : World) : World :=
  { w with
    store := w.store.modify id (Record.without gone)
    walks := w.walks.map (Walk.without id gone)
    loop := w.loop.select (Job.without id gone) }

variable {id other : FileId} {gone : List Nat}

@[simp] theorem FileId.number_self (k : Nat) : id.number gone id k = rank gone k := if_pos rfl

theorem FileId.number_other (h : other ≠ id) (k : Nat) : id.number gone other k = k := if_neg h

@[simp] theorem Record.spared_self (r : Record) : r.spared id gone id = r.without gone := if_pos rfl

theorem Record.spared_other (h : other ≠ id) (r : Record) : r.spared id gone other = r := if_neg h

@[simp] theorem Record.stage_spared (id other : FileId) (gone : List Nat) (r : Record) :
    (r.spared id gone other).cell.stage = r.cell.stage := by
  unfold spared
  split <;> rfl

@[simp] theorem Record.text_spared (id other : FileId) (gone : List Nat) (r : Record) :
    (r.spared id gone other).text = r.text := by
  unfold spared
  split <;> rfl

@[simp] theorem Record.work_spared (id other : FileId) (gone : List Nat) (r : Record) :
    (r.spared id gone other).work = r.work := by
  unfold spared
  split <;> rfl

@[simp] theorem Walk.resolver_without (x : Walk) : (x.without id gone).resolver = x.resolver := rfl

@[simp] theorem Walk.pending_without (x : Walk) : (x.without id gone).pending = x.pending := rfl

@[simp] theorem Walk.phase_without (x : Walk) :
    (x.without id gone).phase = x.phase.without id gone := rfl

@[simp] theorem Walk.round_without (x : Walk) : (x.without id gone).round = x.round := rfl

@[simp] theorem Walk.fetches_without (x : Walk) : (x.without id gone).fetches = x.fetches := rfl

@[simp] theorem Walk.stopping_without (x : Walk) : (x.without id gone).stopping = x.stopping := rfl

/-- Whoever stays is found under the new number. -/
theorem Record.getElem?_spared (r : Record) {k : Nat} (hk : other = id → k ∉ gone) :
    (r.spared id gone other).cell.waiters[id.number gone other k]? = r.cell.waiters[k]? := by
  by_cases h : other = id
  · subst h
    rw [spared_self, FileId.number_self]
    exact Cell.getElem?_without _ (hk rfl)
  · rw [spared_other h, FileId.number_other h]

/-! ## Jobs -/

namespace Job

/-- Jobs that tell nobody are left as they are. -/
theorem carries_of_ne_tell {I : Type} {wrap : I → Job}
    (h : ∀ i other k, wrap i ≠ .file other (.tell k)) (id : FileId) (gone : List Nat) :
    Loop.Carries (Job.without id gone) wrap wrap := by
  intro job i
  cases job with
  | walk k job => simp [Job.without]
  | file other job =>
    cases job with
    | join job => simp [Job.without]
    | tell k =>
      simp only [Job.without]
      split <;> simp [(h i _ _).symm]

theorem carries_walk (id : FileId) (gone : List Nat) (k : Nat) :
    Loop.Carries (Job.without id gone) (Job.walk k) (Job.walk k) :=
  carries_of_ne_tell nofun id gone

theorem carries_join (id : FileId) (gone : List Nat) (other : FileId) :
    Loop.Carries (Job.without id gone) (fun job => Job.file other (.join job))
      fun job => Job.file other (.join job) :=
  carries_of_ne_tell nofun id gone

theorem carries_other (gone : List Nat) (h : other ≠ id) :
    Loop.Carries (Job.without id gone) (Job.file other) (Job.file other) := by
  intro job i
  cases job with
  | walk k' job => simp [Job.without]
  | file other' job =>
    cases job with
    | join job => simp [Job.without]
    | tell k' =>
      simp only [Job.without]
      split
      · rename_i hgone
        obtain ⟨rfl, -⟩ := hgone
        simp [Ne.symm h]
      · by_cases ho : other' = other
        · subst ho
          simp [FileId.number_other h]
        · simp [ho]

/-- Nothing is left of the jobs that tell those who are gone, and of no others. -/
theorem without_eq_none {job : Job} (h : job.without id gone = none) :
    ∃ k ∈ gone, job = .file id (.tell k) := by
  cases job with
  | walk k job => cases h
  | file other job =>
    cases job with
    | join job => cases h
    | tell k =>
      simp only [Job.without] at h
      split at h
      · rename_i hgone
        exact ⟨k, hgone.2, by rw [hgone.1]⟩
      · cases h

/-- The jobs that tell those of a file who wait. -/
theorem filterMap_tells (ks : List Nat) :
    (ks.map fun k => Job.file id (.tell k)).filterMap (Job.without id gone) =
      ((ks.filter (· ∉ gone)).map (rank gone)).map fun k => Job.file id (.tell k) := by
  induction ks with
  | nil => rfl
  | cons k rest ih =>
    by_cases hk : k ∈ gone <;> simp [Job.without, hk, ih]

end Job

namespace World

variable {w w' : World}

/-! ## The parts of a world -/

@[simp] theorem log_without (w : World) : (w.without id gone).log = w.log := rfl

@[simp] theorem registries_without (w : World) :
    (w.without id gone).registries = w.registries := rfl

@[simp] theorem loop_without (w : World) :
    (w.without id gone).loop = w.loop.select (Job.without id gone) := rfl

@[simp] theorem contains_without (w : World) (name : String) :
    (w.without id gone).store.contains name = w.store.contains name := Store.contains_modify _ _ _ _

@[simp] theorem current?_without (id : FileId) (gone : List Nat) (w : World) (name : String) :
    (w.without id gone).store.current? name = w.store.current? name := Store.current?_modify _ _ _ _

@[simp] theorem options_without (w : World) :
    (w.without id gone).store.options = w.store.options := rfl

theorem record?_without (id : FileId) (gone : List Nat) (w : World) (other : FileId) :
    (w.without id gone).store.record? other =
      (w.store.record? other).map (Record.spared id gone other) := by
  refine (Store.record?_modify _ _ _ _).trans ?_
  by_cases h : other = id
  · subst h
    rw [if_pos rfl]
    cases w.store.record? other <;> simp
  · rw [if_neg h]
    cases w.store.record? other <;> simp [Record.spared_other h]

theorem getElem?_walks_without (w : World) (k : Nat) :
    (w.without id gone).walks[k]? = (w.walks[k]?).map (Walk.without id gone) := by
  simp [without]

/-! ## Small changes -/

theorem without_record (w : World) (events : List Event) :
    (w.record events).without id gone = (w.without id gone).record events := rfl

theorem without_note (w : World) (n : Notice) :
    (w.note n).without id gone = (w.without id gone).note n := rfl

theorem without_postAll_walk (w : World) (k : Nat) (jobs : List WalkJob) :
    ({ w with loop := w.loop.postAll (jobs.map (.walk k)) } : World).without id gone =
      { w.without id gone with
        loop := (w.without id gone).loop.postAll (jobs.map (.walk k)) } := by
  have hjobs := (Job.carries_walk id gone k).filterMap (fun job => job) jobs
  simp [without, hjobs]

theorem without_post_walk (w : World) (k : Nat) (job : WalkJob) :
    (w.post (.walk k job)).without id gone = (w.without id gone).post (.walk k job) :=
  without_postAll_walk w k [job]

theorem without_post_join (w : World) (other : FileId) (job : JoinJob) :
    (w.post (.file other (.join job))).without id gone =
      (w.without id gone).post (.file other (.join job)) := by
  simp [without, post, Job.without]

theorem without_alert (w : World) (listener : Option WalkRef) :
    (w.alert listener).without id gone = (w.without id gone).alert listener := by
  cases listener with
  | none => rfl
  | some ref => exact without_post_walk w ref.walk (.resolved ref.place)

/-- The record of a file is changed in the same way. -/
theorem without_modifyFile {change change' : Record → Record}
    (h : ∀ r, w.store.record? other = some r →
      (change r).spared id gone other = change' (r.spared id gone other)) :
    (w.modifyFile other change).without id gone = (w.without id gone).modifyFile other change' := by
  have hstore : (w.store.modify other change).modify id (Record.without gone) =
      (w.store.modify id (Record.without gone)).modify other change' := by
    by_cases hid : other = id
    · subst hid
      rw [Store.modify_modify, Store.modify_modify]
      cases hr : w.store.record? other with
      | none => exact Store.modify_of_none hr
      | some r =>
        refine Store.modify_congr hr ?_
        simpa using h r hr
    · rw [Store.modify_comm _ hid]
      have hrecord : (w.store.modify id (Record.without gone)).record? other =
          w.store.record? other := by
        rw [Store.record?_modify, if_neg hid]
      cases hr : w.store.record? other with
      | none => exact Store.modify_of_none (hrecord.trans hr)
      | some r =>
        refine Store.modify_congr (hrecord.trans hr) ?_
        simpa [Record.spared_other hid] using h r hr
  simp [without, modifyFile, hstore]

theorem without_modifyWalk {k : Nat} {change change' : Walk → Walk}
    (h : ∀ x, w.walks[k]? = some x → (change x).without id gone = change' (x.without id gone)) :
    (w.modifyWalk k change).without id gone = (w.without id gone).modifyWalk k change' := by
  have hwalks : (w.walks.modify k change).map (Walk.without id gone) =
      (w.walks.map (Walk.without id gone)).modify k change' := by
    apply List.ext_getElem?
    intro i
    by_cases hi : k = i
    · subst hi
      cases hx : w.walks[k]? with
      | none => simp [hx]
      | some x => simp [hx, h x hx]
    · simp [hi]
  simp [without, modifyWalk, hwalks]

theorem without_release (w : World) (gate : Gate) :
    (w.release gate).without id gone = (w.without id gone).release gate := by
  simp [without, release, Loop.select_release]

theorem without_add (w : World) (name text : String) :
    (w.add name text).without id gone = (w.without id gone).add name text := by
  have hadd : (w.store.modify id (Record.without gone)).add name text =
      (w.store.add name text).modify id (Record.without gone) := Store.add_modify _ _ _ _ rfl
  simp only [add, contains_without]
  split <;> simp [without, note, record, hadd]

theorem without_setText (w : World) (name text : String) :
    (w.setText name text).without id gone = (w.without id gone).setText name text := by
  simp only [setText, current?_without]
  cases w.store.current? name with
  | none => rfl
  | some current =>
    refine without_modifyFile fun r _ => ?_
    unfold Record.spared
    split <;> rfl

theorem without_register (w : World) (resolver : Nat) (address : String) :
    (w.register resolver address).without id gone = (w.without id gone).register resolver address :=
  rfl

/-! ## Requests -/

theorem length_spared (r : Record) : (r.spared id gone other).cell.waiters.length =
    id.number gone other r.cell.waiters.length := by
  by_cases h : other = id
  · subst h
    rw [Record.spared_self, FileId.number_self]
    exact length_sift _
  · rw [Record.spared_other h, FileId.number_other h]

theorem without_join (listener : Option WalkRef)
    (h : ∀ r, w.store.record? other = some r → other = id → r.cell.waiters.length ∉ gone) :
    (w.join other listener).without id gone = (w.without id gone).join other listener := by
  refine without_modifyFile fun r hr => ?_
  by_cases hid : other = id
  · subst hid
    simp [Record.without, Cell.without_join, h r hr rfl]
  · simp [Record.spared_other hid]

/-- A waiter that is gone might as well not have come. -/
theorem without_join_of_mem {r : Record} (hr : w.store.record? id = some r)
    (h : r.cell.waiters.length ∈ gone) (listener : Option WalkRef) :
    (w.join id listener).without id gone = w.without id gone := by
  have hstore : (w.store.modify id fun r => { r with cell := r.cell.join listener }).modify id
      (Record.without gone) = w.store.modify id (Record.without gone) := by
    rw [Store.modify_modify]
    refine Store.modify_congr hr ?_
    simp [Record.without, Cell.without_join, h]
  simp [without, join, modifyFile, hstore]

theorem without_begin (env : Environment) (w : World) (resolver : Nat) (other : FileId)
    (text : String) (found : Extraction) (notices : List Notice) :
    (w.begin env resolver other text found notices).without id gone =
      (w.without id gone).begin env resolver other text found notices := by
  unfold begin start
  rw [without_post_join]
  congr 1
  refine without_modifyFile fun r _ => ?_
  unfold Record.spared
  split <;> rfl

theorem find?_without_none {name : String} (h : w.store.find? name = none) :
    (w.without id gone).store.find? name = none := by
  unfold Store.find? at h ⊢
  rw [current?_without]
  cases hcurrent : w.store.current? name with
  | none => rfl
  | some current =>
    rw [hcurrent] at h
    have hmissing : w.store.record? current = none := h
    exact (record?_without id gone w current).trans (by rw [hmissing]; rfl)

/-- **A request** does the same without those who are gone, unless it brings one of them. -/
theorem without_resolve {env : Environment} {resolver : Nat} {name : String}
    {listener : Option WalkRef}
    (h : ∀ p, (w.resolve env resolver name listener).2 = .ok p → p.1 = id → p.2 ∉ gone) :
    (w.without id gone).resolve env resolver name listener =
      ((w.resolve env resolver name listener).1.without id gone,
        (w.resolve env resolver name listener).2.map fun p => (p.1, id.number gone p.1 p.2)) := by
  rcases find?_cases w name with hnone | ⟨current, r, hid, hr⟩
  · rw [resolve_missing hnone, resolve_missing (find?_without_none hnone)]
    rfl
  · have hid' := (current?_without id gone w name).trans hid
    have hr' := record?_without id gone w current
    rw [hr, Option.map_some] at hr'
    have hs' := Record.stage_spared id current gone r
    have htext := Record.text_spared id current gone r
    by_cases hs : r.cell.stage = .unstarted
    · cases he : env.extract r.text with
      | error cause =>
        rw [resolve_unreadable hid hr hs he,
          resolve_unreadable hid' hr' (hs'.trans hs) ((congrArg env.extract htext).trans he), htext]
        rfl
      | ok result =>
        obtain ⟨found, notices⟩ := result
        have hfirst : w.resolve env resolver name listener = _ := resolve_first hid hr hs he
        rw [hfirst] at h ⊢
        rw [resolve_first hid' hr' (hs'.trans hs) ((congrArg env.extract htext).trans he), htext,
          length_spared, ← without_begin, without_join]
        · rfl
        · intro r₁ hr₁ hcurrent
          rw [record?_begin env hr] at hr₁
          cases hr₁
          exact h _ rfl hcurrent
    · have hlater : w.resolve env resolver name listener = _ := resolve_later hid hr hs
      rw [hlater] at h ⊢
      rw [resolve_later hid' hr' (fun e => hs (hs'.symm.trans e)), length_spared, without_join]
      · rfl
      · intro r₁ hr₁ hcurrent
        obtain rfl := Option.some.inj (hr.symm.trans hr₁)
        exact h _ rfl hcurrent

/-- **A request where no loop is running** does the same, too. -/
theorem without_resolveWithoutLoop {env : Environment} {name : String} {listener : Option WalkRef}
    (h : ∀ p, (w.resolveWithoutLoop env name listener).2 = .ok p → p.1 = id → p.2 ∉ gone) :
    (w.without id gone).resolveWithoutLoop env name listener =
      ((w.resolveWithoutLoop env name listener).1.without id gone,
        (w.resolveWithoutLoop env name listener).2.map
          fun p => (p.1, id.number gone p.1 p.2)) := by
  rcases find?_cases w name with hnone | ⟨current, r, hid, hr⟩
  · rw [resolveWithoutLoop_missing hnone, resolveWithoutLoop_missing (find?_without_none hnone)]
    rfl
  · have hid' := (current?_without id gone w name).trans hid
    have hr' := record?_without id gone w current
    rw [hr, Option.map_some] at hr'
    have hs' := Record.stage_spared id current gone r
    have htext := Record.text_spared id current gone r
    by_cases hs : r.cell.stage = .unstarted
    · cases he : env.extract r.text with
      | error cause =>
        rw [resolveWithoutLoop_unreadable hid hr hs he, resolveWithoutLoop_unreadable hid' hr'
          (hs'.trans hs) ((congrArg env.extract htext).trans he), htext]
        rfl
      | ok result =>
        obtain ⟨found, notices⟩ := result
        rw [resolveWithoutLoop_first hid hr hs he, resolveWithoutLoop_first hid' hr'
          (hs'.trans hs) ((congrArg env.extract htext).trans he), htext]
        rfl
    · have hlater : w.resolveWithoutLoop env name listener = _ :=
        resolveWithoutLoop_later hid hr hs
      rw [hlater] at h ⊢
      rw [resolveWithoutLoop_later hid' hr' (fun e => hs (hs'.symm.trans e)), length_spared,
        without_join]
      · rfl
      · intro r₁ hr₁ hcurrent
        obtain rfl := Option.some.inj (hr.symm.trans hr₁)
        exact h _ rfl hcurrent

/-! ## Waiters -/

/-- Nobody listens to the waiters that are gone. -/
def Unheard (id : FileId) (gone : List Nat) (s : Store) : Prop :=
  ∀ k ∈ gone, ∀ listener, s.Listens id k listener → listener = none

theorem Unheard.of_grows {s s' : Store} (h : Unheard id gone s') (hs : s.Grows s') :
    Unheard id gone s := fun k hk listener hl => h k hk listener (hs.listens hl)

/-- Whoever somebody listens to stays. -/
theorem Unheard.stays {s : Store} (h : Unheard id gone s) {k : Nat} {ref : WalkRef}
    (hl : s.Listens other k (some ref)) (hid : other = id) : k ∉ gone := by
  subst hid
  intro hk
  cases h k hk _ hl

/-- Nobody is to be told when one who is gone has an outcome. -/
theorem Unheard.settleWaiter {s : Store} (h : Unheard id gone s) {r : Record}
    (hr : s.record? id = some r) {k : Nat} (hk : k ∈ gone) (o : Ending Fault Dependencies) :
    (r.cell.settleWaiter k o).2 = none := by
  unfold Cell.settleWaiter
  split
  · rename_i listener hx
    exact h k hk listener ⟨r, _, hr, hx, rfl⟩
  · rfl

theorem Unheard.tell {s : Store} (h : Unheard id gone s) {r : Record} (hr : s.record? id = some r)
    {k : Nat} (hk : k ∈ gone) : (r.cell.tell k).2 = none := by
  unfold Cell.tell
  split
  · exact h.settleWaiter hr hk _
  · rfl

theorem outcome?_without (w : World) {k : Nat} (hk : other = id → k ∉ gone) :
    (w.without id gone).outcome? other (id.number gone other k) = w.outcome? other k := by
  unfold outcome?
  rw [record?_without]
  cases w.store.record? other with
  | none => rfl
  | some r => simp [Record.getElem?_spared r hk]

theorem settleWaiter_spared (r : Record) {k : Nat} (hk : other = id → k ∉ gone)
    (o : Ending Fault Dependencies) :
    (r.spared id gone other).cell.settleWaiter (id.number gone other k) o =
      ((({ r with cell := (r.cell.settleWaiter k o).1 } : Record).spared id gone other).cell,
        (r.cell.settleWaiter k o).2) := by
  by_cases hid : other = id
  · subst hid
    simp only [Record.spared_self, FileId.number_self]
    exact Cell.without_settleWaiter _ (hk rfl) o
  · simp [Record.spared_other hid, FileId.number_other hid]

/-- **A waiter that stays gives up** under the new number. -/
theorem without_giveUp (w : World) {k : Nat} (hk : other = id → k ∉ gone) :
    (w.giveUp other k).without id gone =
      (w.without id gone).giveUp other (id.number gone other k) := by
  unfold giveUp
  rw [record?_without]
  cases hr : w.store.record? other with
  | none => rfl
  | some r =>
    simp only [Option.map_some, Cell.giveUp, settleWaiter_spared r hk, without_alert]
    congr 1
    refine without_modifyFile fun r' hr' => ?_
    obtain rfl := Option.some.inj (hr.symm.trans hr')
    unfold Record.spared
    split <;> rfl

/-- One that is gone might as well not give up. -/
theorem without_giveUp_of_mem (hw : Unheard id gone w.store) {k : Nat} (hk : k ∈ gone) :
    (w.giveUp id k).without id gone = w.without id gone := by
  unfold giveUp
  cases hr : w.store.record? id with
  | none => rfl
  | some r =>
    have hlistener : (r.cell.giveUp k).2 = none := hw.settleWaiter hr hk _
    have hstore : (w.store.modify id fun r' => { r' with cell := (r.cell.giveUp k).1 }).modify id
        (Record.without gone) = w.store.modify id (Record.without gone) := by
      rw [Store.modify_modify]
      refine Store.modify_congr hr ?_
      simp [Record.without, Cell.giveUp, Cell.without_settleWaiter_of_mem _ hk]
    simp only [hlistener, alert]
    simp [without, modifyFile, hstore]

/-! ## Jobs of a file -/

end World

/-- What a job leaves behind, once some waiters of file `id` are gone. -/
def Done.spared (id : FileId) (gone : List Nat) (other : FileId) (done : Done Job) : Done Job :=
  { record := done.record.spared id gone other, loop := done.loop.select (Job.without id gone)
    events := done.events, listener := done.listener }

namespace Record

variable (r : Record) (loop : Loop Job)

theorem finish_without (ending : Ending Fault Dependencies) :
    (r.without gone).finish (.file id) (loop.select (Job.without id gone)) ending =
      (r.finish (.file id) loop ending).spared id gone id := by
  have htells := @Job.filterMap_tells id gone r.cell.pending
  simp [finish, Done.spared, Record.without, Cell.without_pending, htells]

theorem performJoin_without (work : Work) (job : JoinJob) :
    (r.without gone).performJoin (.file id) (loop.select (Job.without id gone)) work job =
      (r.performJoin (.file id) loop work job).spared id gone id := by
  have hp := Join.perform_select (Job.carries_join id gone id) loop work.join job
  simp only [performJoin, Done.spared, ← hp, Prod.map_fst, Prod.map_snd, id_eq, Record.spared_self]
  rfl

theorem fail_without (work : Work) (ending : Ending Fault Dependencies) :
    (r.without gone).fail (.file id) (loop.select (Job.without id gone)) work ending =
      (r.fail (.file id) loop work ending).spared id gone id := by
  have ha := Join.abandon_select (Job.carries_join id gone id) loop work.join
  have hfinish := @finish_without id gone
    { r with work := some { work with
      join := (work.join.abandon (fun j => Job.file id (.join j)) loop).2 } }
    (work.join.abandon (fun j => Job.file id (.join j)) loop).1 ending
  simp only [fail, ← ha, Prod.map_fst, Prod.map_snd, id_eq]
  exact hfinish

theorem complete_without (file : String) (registry : Registry) (work : Work)
    (addresses : List (Option String)) :
    (r.without gone).complete (.file id) file registry (loop.select (Job.without id gone)) work
        addresses =
      (r.complete (.file id) file registry loop work addresses).spared id gone id := by
  have htells := @Job.filterMap_tells id gone r.cell.pending
  simp [complete, finish, Done.spared, Record.without, Cell.without_pending, htells]

/-- A job of a file is carried out on its record as before. -/
theorem perform_spared (registries : Nat → Registry) {job job' : FileJob}
    (h : Job.without id gone (.file other job) = some (.file other job')) :
    (r.spared id gone other).perform (.file other) other.name registries
        (loop.select (Job.without id gone)) job' =
      (r.perform (.file other) other.name registries loop job).spared id gone other := by
  by_cases hid : other = id
  · subst hid
    rw [spared_self]
    cases job with
    | tell k =>
      have hk : k ∉ gone := by
        intro hk
        simp [Job.without, hk] at h
      obtain rfl : .tell (rank gone k) = job' := by simpa [Job.without, hk] using h
      have htell : (r.without gone).cell.tell (rank gone k) =
          ((r.cell.tell k).1.without gone, (r.cell.tell k).2) := by
        simp only [Record.without, Cell.tell, Cell.stage_without]
        split
        · exact Cell.without_settleWaiter _ hk _
        · rfl
      simp [perform, Done.spared, htell]
      rfl
    | join job =>
      obtain rfl : .join job = job' := by simpa [Job.without] using h
      have hwork : (r.without gone).work = r.work := rfl
      unfold perform
      rw [hwork]
      cases r.work with
      | none => simp [Done.spared]
      | some work =>
        cases job with
        | launch =>
          simp only
          split
          · exact complete_without _ _ _ _ _ _
          · exact performJoin_without _ _ _ _
        | wake =>
          simp only
          split
          · exact complete_without _ _ _ _ _ _
          · exact fail_without _ _ _ _
          · exact fail_without _ _ _ _
          · simp [Done.spared]
        | turn i => exact performJoin_without _ _ _ _
        | hear i => exact performJoin_without _ _ _ _
  · have hjob : job' = job := by
      have hsame := (Job.carries_other gone hid).apply job
      rw [h] at hsame
      simpa using hsame
    subst hjob
    have hperform := perform_select (Job.carries_other gone hid) r other.name registries loop job'
    rw [spared_other hid, ← hperform]
    simp [Done.spared, Done.select, spared_other hid]

end Record

namespace World

variable {w w' : World}

/-- **A job of a file** is carried out as before. -/
theorem without_performFile (w : World) {job job' : FileJob}
    (h : Job.without id gone (.file other job) = some (.file other job')) :
    (w.performFile other job).without id gone = (w.without id gone).performFile other job' := by
  unfold performFile
  rw [record?_without]
  cases hr : w.store.record? other with
  | none => rfl
  | some r =>
    have hperform := Record.perform_spared r w.loop w.registries h
    simp only [Option.map_some, registries_without, loop_without, hperform, without_alert,
      without_record, Done.spared]
    congr 2
    exact without_modifyFile fun _ _ => rfl

/-- Nobody learns that one who is gone is told. -/
theorem without_performFile_tell (hw : Unheard id gone w.store) {k : Nat} (hk : k ∈ gone) :
    (w.performFile id (.tell k)).without id gone = w.without id gone := by
  unfold performFile
  cases hr : w.store.record? id with
  | none => rfl
  | some r =>
    have hlistener : (r.cell.tell k).2 = none := hw.tell hr hk
    have hcell : (r.cell.tell k).1.without gone = r.cell.without gone := by
      unfold Cell.tell
      split
      · exact Cell.without_settleWaiter_of_mem _ hk _
      · rfl
    have hstore : (w.store.modify id fun _ => { r with cell := (r.cell.tell k).1 }).modify id
        (Record.without gone) = w.store.modify id (Record.without gone) := by
      rw [Store.modify_modify]
      refine Store.modify_congr hr ?_
      simp [Record.without, hcell]
    simp only [Record.perform, hlistener, alert]
    simp [without, modifyFile, record, hstore]

/-- Nothing comes to be due when one who is gone is told. -/
theorem loop_performFile_tell (hw : Unheard id gone w.store) {k : Nat} (hk : k ∈ gone) :
    (w.performFile id (.tell k)).loop = w.loop := by
  unfold performFile
  cases hr : w.store.record? id with
  | none => rfl
  | some r => simp [Record.perform, hw.tell hr hk, alert, record, modifyFile]

end World

end DepGraph
