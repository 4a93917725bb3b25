import DepGraph.Resolution.File
import DepGraph.Proofs.Cells
import DepGraph.Proofs.Store

/-!
# What a request for a file does

* `World.resolve_spec` — the four ways in which a request ends: no such file, an unreadable text,
  the start of the resolution, or one more waiter for it.
* `World.resolveWithoutLoop_spec` — the same request where there is no loop.
-/

set_option autoImplicit false

namespace DepGraph

namespace World

/-- The text of a file is being read. -/
def read (w : World) (id : FileId) (text : String) : World :=
  (w.note (.starting id.name)).record [.extracting id text]

/-- One more waiter for a file. -/
def join (w : World) (id : FileId) (listener : Option WalkRef) : World :=
  w.modifyFile id fun r => { r with cell := r.cell.join listener }

/-- The world in which the specifiers of a file were read and its resolution started. -/
def begin (env : Environment) (w : World) (resolver : Nat) (id : FileId) (text : String)
    (found : Extraction) (notices : List Notice) : World :=
  start env ((w.read id text).record (notices.map .notice)) resolver id found

variable {env : Environment} {w : World} {id : FileId} {r : Record}

theorem attach_eq (hr : w.store.record? id = some r) (hs : r.cell.stage ≠ .unstarted)
    (listener : Option WalkRef) :
    w.attach id listener = (w.join id listener, some r.cell.waiters.length) := by
  have hjoin : (w.modifyFile id fun r' => { r' with cell := r.cell.join listener }) =
      w.join id listener := by
    unfold join modifyFile
    rw [Store.modify_congr hr]
    rfl
  simp [attach, hr, Cell.attach_eq hs, hjoin]

theorem record?_begin (env : Environment) (h : w.store.record? id = some r) (resolver : Nat)
    (found : Extraction) (notices : List Notice) :
    (w.begin env resolver id r.text found notices).store.record? id =
      some (r.start found (workOf env w.store.options resolver id found)) := by
  have hstore : ((w.read id r.text).record (notices.map .notice)).store = w.store := rfl
  simp [begin, start, modifyFile, post, hstore, h]

section Requests

variable {resolver : Nat} {name : String} {listener : Option WalkRef}

theorem resolve_missing (h : w.store.find? name = none) :
    w.resolve env resolver name listener = (w, .error (.notAdded name)) := by
  simp only [resolve, h]
  split <;> simp_all

theorem resolve_unreadable (hid : w.store.current? name = some id)
    (hr : w.store.record? id = some r) (hs : r.cell.stage = .unstarted) {cause : Cause}
    (he : env.extract r.text = .error cause) :
    w.resolve env resolver name listener = (w.read id r.text, .error (.unreadable cause)) := by
  have hfind : w.store.find? name = some r := (Store.find?_eq hid).trans hr
  simp [resolve, hid, hfind, hs, extract, he, read]

/-- The first who asks starts the resolution. -/
theorem resolve_first (hid : w.store.current? name = some id) (hr : w.store.record? id = some r)
    (hs : r.cell.stage = .unstarted) {found : Extraction} {notices : List Notice}
    (he : env.extract r.text = .ok (found, notices)) :
    w.resolve env resolver name listener =
      ((w.begin env resolver id r.text found notices).join id listener,
        .ok (id, r.cell.waiters.length)) := by
  have hfind : w.store.find? name = some r := (Store.find?_eq hid).trans hr
  have hattach := attach_eq (record?_begin env hr resolver found notices)
    (Cell.begun_stage_ne r.cell) listener
  have hextract : w.extract env id r.text =
      ((w.read id r.text).record (notices.map .notice), .ok found) := by
    simp [extract, he, read]
  rw [begin] at hattach ⊢
  simp only [resolve, hid, hfind, hs, hextract, hattach]
  rfl

/-- Everyone who asks later has one more waiter. -/
theorem resolve_later (hid : w.store.current? name = some id) (hr : w.store.record? id = some r)
    (hs : r.cell.stage ≠ .unstarted) :
    w.resolve env resolver name listener =
      (w.join id listener, .ok (id, r.cell.waiters.length)) := by
  have hfind : w.store.find? name = some r := (Store.find?_eq hid).trans hr
  simp only [resolve, hid, hfind, attach_eq hr hs]

theorem resolveWithoutLoop_missing (h : w.store.find? name = none) :
    w.resolveWithoutLoop env name listener = (w, .error (.notAdded name)) := by
  simp only [resolveWithoutLoop, h]
  split <;> simp_all

theorem resolveWithoutLoop_unreadable (hid : w.store.current? name = some id)
    (hr : w.store.record? id = some r) (hs : r.cell.stage = .unstarted) {cause : Cause}
    (he : env.extract r.text = .error cause) :
    w.resolveWithoutLoop env name listener = (w.read id r.text, .error (.unreadable cause)) := by
  have hfind : w.store.find? name = some r := (Store.find?_eq hid).trans hr
  simp [resolveWithoutLoop, hid, hfind, hs, extract, he, read]

/-- Without a loop a text is read in vain. -/
theorem resolveWithoutLoop_first (hid : w.store.current? name = some id)
    (hr : w.store.record? id = some r) (hs : r.cell.stage = .unstarted) {found : Extraction}
    {notices : List Notice} (he : env.extract r.text = .ok (found, notices)) :
    w.resolveWithoutLoop env name listener =
      ((w.read id r.text).record (notices.map .notice), .error .noLoop) := by
  have hfind : w.store.find? name = some r := (Store.find?_eq hid).trans hr
  simp [resolveWithoutLoop, hid, hfind, hs, extract, he, read]

theorem resolveWithoutLoop_later (hid : w.store.current? name = some id)
    (hr : w.store.record? id = some r) (hs : r.cell.stage ≠ .unstarted) :
    w.resolveWithoutLoop env name listener =
      (w.join id listener, .ok (id, r.cell.waiters.length)) := by
  have hfind : w.store.find? name = some r := (Store.find?_eq hid).trans hr
  simp only [resolveWithoutLoop, hid, hfind, attach_eq hr hs]

/-- What is found under a name is the record of a file. -/
theorem find?_cases (w : World) (name : String) : w.store.find? name = none ∨
    ∃ id r, w.store.current? name = some id ∧ w.store.record? id = some r := by
  cases hfind : w.store.find? name with
  | none => exact .inl rfl
  | some r =>
    obtain ⟨id, hid, hr⟩ : ∃ id, w.store.current? name = some id ∧ w.store.record? id = some r := by
      simpa [Store.find?, Option.bind_eq_some_iff] using hfind
    exact .inr ⟨id, r, hid, hr⟩

end Requests

/-- **What a request does.** There is no file of the name; or its text is read and is not readable;
or it is read and the resolution starts; or the resolution was started before. Where it was
started, there is one more waiter. -/
theorem resolve_spec (env : Environment) (w : World) (resolver : Nat) (name : String)
    (listener : Option WalkRef) :
    (w.store.find? name = none ∧
      w.resolve env resolver name listener = (w, .error (.notAdded name))) ∨
    ∃ id r, w.store.current? name = some id ∧ w.store.record? id = some r ∧
      ((r.cell.stage = .unstarted ∧ ∃ cause, env.extract r.text = .error cause ∧
          w.resolve env resolver name listener = (w.read id r.text, .error (.unreadable cause))) ∨
        (r.cell.stage = .unstarted ∧ ∃ found notices, env.extract r.text = .ok (found, notices) ∧
          w.resolve env resolver name listener =
            ((w.begin env resolver id r.text found notices).join id listener,
              .ok (id, r.cell.waiters.length))) ∨
        (r.cell.stage ≠ .unstarted ∧ w.resolve env resolver name listener =
          (w.join id listener, .ok (id, r.cell.waiters.length)))) := by
  rcases find?_cases w name with h | ⟨id, r, hid, hr⟩
  · exact .inl ⟨h, resolve_missing h⟩
  refine .inr ⟨id, r, hid, hr, ?_⟩
  by_cases hs : r.cell.stage = .unstarted
  · cases he : env.extract r.text with
    | error cause => exact .inl ⟨hs, cause, rfl, resolve_unreadable hid hr hs he⟩
    | ok result =>
      obtain ⟨found, notices⟩ := result
      exact .inr (.inl ⟨hs, found, notices, rfl, resolve_first hid hr hs he⟩)
  · exact .inr (.inr ⟨hs, resolve_later hid hr hs⟩)

/-- Without a loop the text of a file is read in vain, unless its resolution was started before. -/
theorem resolveWithoutLoop_spec (env : Environment) (w : World) (name : String)
    (listener : Option WalkRef) :
    (w.store.find? name = none ∧
      w.resolveWithoutLoop env name listener = (w, .error (.notAdded name))) ∨
    ∃ id r, w.store.current? name = some id ∧ w.store.record? id = some r ∧
      ((r.cell.stage = .unstarted ∧ ∃ cause, env.extract r.text = .error cause ∧
          w.resolveWithoutLoop env name listener =
            (w.read id r.text, .error (.unreadable cause))) ∨
        (r.cell.stage = .unstarted ∧ ∃ found notices, env.extract r.text = .ok (found, notices) ∧
          w.resolveWithoutLoop env name listener =
            ((w.read id r.text).record (notices.map .notice), .error .noLoop)) ∨
        (r.cell.stage ≠ .unstarted ∧ w.resolveWithoutLoop env name listener =
          (w.join id listener, .ok (id, r.cell.waiters.length)))) := by
  rcases find?_cases w name with h | ⟨id, r, hid, hr⟩
  · exact .inl ⟨h, resolveWithoutLoop_missing h⟩
  refine .inr ⟨id, r, hid, hr, ?_⟩
  by_cases hs : r.cell.stage = .unstarted
  · cases he : env.extract r.text with
    | error cause => exact .inl ⟨hs, cause, rfl, resolveWithoutLoop_unreadable hid hr hs he⟩
    | ok result =>
      obtain ⟨found, notices⟩ := result
      exact .inr (.inl ⟨hs, found, notices, rfl, resolveWithoutLoop_first hid hr hs he⟩)
  · exact .inr (.inr ⟨hs, resolveWithoutLoop_later hid hr hs⟩)

/-! ## Those who wait -/

theorem grows_join (w : World) (id : FileId) (listener : Option WalkRef) :
    w.store.Grows (w.join id listener).store :=
  Store.grows_modify fun _ _ => Cell.joined_join _ _

theorem grows_begin (env : Environment) (w : World) (resolver : Nat) (id : FileId) (text : String)
    (found : Extraction) (notices : List Notice) :
    w.store.Grows (w.begin env resolver id text found notices).store :=
  Store.grows_modify fun _ _ => .refl _

theorem grows_resolve (env : Environment) (w : World) (resolver : Nat) (name : String)
    (listener : Option WalkRef) :
    w.store.Grows (w.resolve env resolver name listener).1.store := by
  rcases resolve_spec env w resolver name listener with
    ⟨_, h⟩ | ⟨_, _, _, _, ⟨_, _, _, h⟩ | ⟨_, _, _, _, h⟩ | ⟨_, h⟩⟩ <;> rw [h]
  · exact .refl _
  · exact .refl _
  · exact (grows_begin _ _ _ _ _ _ _).trans (grows_join _ _ _)
  · exact grows_join _ _ _

theorem grows_giveUp (w : World) (id : FileId) (waiter : Nat) :
    w.store.Grows (w.giveUp id waiter).store := by
  unfold giveUp
  split
  · exact .refl _
  · rename_i r hr
    have hgrows : w.store.Grows
        (w.store.modify id fun r' => { r' with cell := (r.cell.giveUp waiter).1 }) := by
      refine Store.grows_modify fun r' hr' => ?_
      obtain rfl : r = r' := Option.some.inj (hr.symm.trans hr')
      exact Cell.joined_settleWaiter _ _ _
    simp only [alert]
    split <;> exact hgrows

/-- Who asks for a file waits for it with the listener given. -/
theorem listens_resolve {resolver : Nat} {name : String} {listener : Option WalkRef}
    {w' : World} {waiter : FileId × Nat}
    (h : w.resolve env resolver name listener = (w', .ok waiter)) :
    w'.store.Listens waiter.1 waiter.2 listener := by
  have hlast : ∀ (c : Cell WalkRef Fault Dependencies),
      (c.join listener).waiters[c.waiters.length]? = some { listener, outcome := c.ending? } := by
    intro c
    simp [Cell.join]
  rcases resolve_spec env w resolver name listener with
    ⟨_, h'⟩ | ⟨id', r', _, hr, ⟨_, _, _, h'⟩ | ⟨_, found, notices, _, h'⟩ | ⟨_, h'⟩⟩
  · rw [h] at h'
    cases h'
  · rw [h] at h'
    cases h'
  · rw [h] at h'
    cases h'
    have hbegin := record?_begin env hr resolver found notices
    refine ⟨{ r'.start found (workOf env w.store.options resolver id' found) with
      cell := (r'.start found (workOf env w.store.options resolver id' found)).cell.join listener },
      _, ?_, hlast _, rfl⟩
    simp [join, modifyFile, hbegin]
  · rw [h] at h'
    cases h'
    refine ⟨{ r' with cell := r'.cell.join listener }, _, ?_, hlast _, rfl⟩
    simp [join, modifyFile, hr]

end World

end DepGraph
