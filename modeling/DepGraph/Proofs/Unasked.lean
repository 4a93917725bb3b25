import DepGraph.Proofs.Alone

/-!
# Files that nobody asks for

A file that nobody asks for stays as it was added. A file that was added again is superseded: it is
not found under its name any more, so nobody asks for it from then on, and only its own jobs go on.

* `Lane.Unasked` — nobody has asked for the file yet; `World.unasked_run` — it stays so until
  somebody does.
* `Action.Seeks` — an action looks for a file under its name.
* `Store.Superseded` — there is a newer file of the same name; `World.not_seeks_of_superseded` —
  nobody finds such a file.
* `World.unsought_run` — what a run does to a file that nobody looks for.
-/

set_option autoImplicit false

namespace DepGraph

namespace Lane

variable {envs : Nat → Environment} {options : Options} {id : FileId} {a : Action} {l : Lane}

/-- Nobody has asked for the file: its record is new but for its text, and nothing is due. -/
def Unasked (l : Lane) : Prop :=
  ∃ (text : String) (opened : List Gate), l.record = { text } ∧ l.loop = { opened }

theorem unasked_fresh (text : String) (opened : List Gate) : (fresh text opened).Unasked :=
  ⟨text, opened, rfl, rfl⟩

theorem Unasked.heedless (h : l.Unasked) : l.heedless.Unasked := by
  obtain ⟨text, opened, hrecord, hloop⟩ := h
  exact ⟨text, opened, congrArg Record.heedless hrecord, hloop⟩

theorem Unasked.of_heedless (h : l.heedless.Unasked) : l.Unasked := by
  obtain ⟨text, opened, hrecord, hloop⟩ := h
  obtain ⟨⟨text', isLib, dependencies, ⟨stage, waiters⟩, work⟩, loop, log⟩ := l
  simp only [Lane.heedless, Record.heedless, Cell.heedless, Record.mk.injEq, Cell.mk.injEq,
    List.map_eq_nil_iff] at hrecord
  obtain ⟨rfl, rfl, rfl, ⟨rfl, rfl⟩, rfl⟩ := hrecord
  exact ⟨_, opened, rfl, hloop⟩

/-- Everything but a request leaves the file unasked. -/
theorem Unasked.deal (h : l.Unasked) (ha : ∀ resolver name, a ≠ .resolve resolver name)
    (registries : Nat → Registry) : (l.deal envs options id registries a).Unasked := by
  obtain ⟨text, opened, hrecord, hloop⟩ := h
  cases a with
  | tick =>
    have hidle : l.turn id registries = l := by simp [turn, hloop, Loop.next?]
    exact ⟨text, opened, (congrArg Lane.record hidle).trans hrecord,
      (congrArg Lane.loop hidle).trans hloop⟩
  | resolve resolver name => exact absurd rfl (ha resolver name)
  | setText name text => exact ⟨text, opened, by simp [Lane.deal, hrecord], hloop⟩
  | resolveWithoutLoop resolver name =>
    refine ⟨text, opened, ?_, ?_⟩ <;> simp [Lane.deal, requestWithoutLoop, hrecord, hloop]
  | giveUp other waiter =>
    refine ⟨text, opened, ?_, hloop⟩
    simp [Lane.deal, setCell, Cell.giveUp, Cell.settleWaiter, hrecord]
  | release gate =>
    refine ⟨text, (l.loop.release gate).opened, hrecord, ?_⟩
    simp [Lane.deal, Loop.release, hloop]
  | _ => exact ⟨text, opened, hrecord, hloop⟩

theorem Unasked.dealAll (h : l.Unasked) {dealt : List Action}
    (hdealt : ∀ resolver name, .resolve resolver name ∉ dealt) (registries : Nat → Registry) :
    (dealAll envs options id registries l dealt).Unasked :=
  dealAll_of_deal (P := Unasked) (fun _ hb registries _ hl =>
    hl.deal (fun resolver name e => hdealt resolver name (e ▸ hb)) registries) registries h

end Lane

/-- The action looks for a file under its name. -/
def Action.Seeks : Action → Prop
  | .setText .. | .resolve .. | .resolveWithoutLoop .. => True
  | _ => False

namespace Lane

variable {envs : Nat → Environment} {options : Options} {id : FileId} {a : Action}

theorem length_waiters_turn (l : Lane) (id : FileId) (registries : Nat → Registry) :
    (l.turn id registries).record.cell.waiters.length = l.record.cell.waiters.length := by
  have htell : ∀ k, (l.record.cell.tell k).1.waiters.length = l.record.cell.waiters.length := by
    intro k
    unfold Cell.tell Cell.settleWaiter
    split
    · split
      · exact List.length_set
      · rfl
    · rfl
  unfold turn
  split
  · rfl
  · simp only [Record.perform]
    split
    · exact htell _
    · split <;> rfl
    · split <;> rfl
    · rfl
    · rfl

/-- Who does not look for the file under its name does not change its text and does not wait. -/
theorem deal_of_not_seeks (envs : Nat → Environment) (options : Options) (id : FileId)
    (ha : ¬a.Seeks) (registries : Nat → Registry) (l : Lane) :
    (l.deal envs options id registries a).record.text = l.record.text ∧
      (l.deal envs options id registries a).record.cell.waiters.length =
        l.record.cell.waiters.length := by
  cases a with
  | setText | resolve | resolveWithoutLoop => exact absurd trivial ha
  | tick => exact ⟨text_turn l id registries, length_waiters_turn l id registries⟩
  | giveUp other waiter =>
    refine ⟨rfl, ?_⟩
    change (l.record.cell.giveUp waiter).1.waiters.length = _
    unfold Cell.giveUp Cell.settleWaiter
    split
    · exact List.length_set
    · rfl
  | _ => exact ⟨rfl, rfl⟩

theorem dealAll_of_not_seeks (envs : Nat → Environment) (options : Options) (id : FileId)
    {dealt : List Action} (hdealt : ∀ b ∈ dealt, ¬b.Seeks) (registries : Nat → Registry)
    (l : Lane) :
    (dealAll envs options id registries l dealt).record.text = l.record.text ∧
      (dealAll envs options id registries l dealt).record.cell.waiters.length =
        l.record.cell.waiters.length := by
  refine dealAll_of_deal (P := fun l' => l'.record.text = l.record.text ∧
    l'.record.cell.waiters.length = l.record.cell.waiters.length) (fun b hb registries l' hl' => ?_)
    registries ⟨rfl, rfl⟩
  obtain ⟨htext, hlength⟩ := deal_of_not_seeks envs options id (hdealt b hb) registries l'
  exact ⟨htext.trans hl'.1, hlength.trans hl'.2⟩

end Lane

/-- There is a newer file of the same name. -/
def Store.Superseded (s : Store) (id : FileId) : Prop :=
  id.generation + 1 < (s.generations id.name).length

theorem Store.Superseded.current?_ne {s : Store} {id : FileId} (h : s.Superseded id)
    (name : String) : s.current? name ≠ some id := by
  intro hid
  obtain rfl := Store.current?_name hid
  unfold Store.current? at hid
  split at hid
  · have hlast : (s.generations id.name).length - 1 = id.generation :=
      congrArg FileId.generation (Option.some.inj hid)
    unfold Store.Superseded at h
    omega
  · cases hid

/-- What is superseded stays so when files are added. -/
theorem Store.Superseded.add {s : Store} {id : FileId} (h : s.Superseded id) (name text : String) :
    (s.add name text).Superseded id := by
  unfold Store.Superseded at h ⊢
  rw [Store.generations_add]
  split
  · rename_i hname
    rw [List.length_append, ← hname]
    exact Nat.lt_add_right _ h
  · exact h

/-- Adding a file supersedes the earlier files of its name. -/
theorem Store.superseded_add {s : Store} {id : FileId} {r : Record} (hr : s.record? id = some r)
    (text : String) : (s.add id.name text).Superseded id := by
  unfold Store.Superseded
  rw [Store.generations_add, if_pos rfl, List.length_append]
  exact Nat.succ_lt_succ (List.getElem?_eq_some_iff.mp hr).1

namespace World

variable {env : Environment} {envs : Nat → Environment} {w w' : World} {id : FileId} {l : Lane}
  {a : Action}

/-- **Until somebody asks for it**, a file that nobody has asked for stays so. -/
theorem unasked_run (hw : w.Tidy) (hl : w.lane? id = some l) (h : l.Unasked)
    (actions : List Action)
    (hnone : ∀ resolver name, .resolve resolver name ∉ allDealings envs id w actions) :
    ∃ l', (w.run envs actions).lane? id = some l' ∧ l'.Unasked := by
  obtain ⟨l', hl', hdealt⟩ := lane?_run_dealings envs hw hl actions
  exact ⟨l', hl', .of_heedless (hdealt ▸ h.heedless.dealAll hnone _)⟩

/-! ## Superseded files -/

theorem superseded_addAll (h : w.store.Superseded id) (files : List (String × String)) :
    (files.foldl (fun w (name, text) => w.add name text) w).store.Superseded id := by
  induction files generalizing w with
  | nil => exact h
  | cons file rest ih =>
    refine ih ?_
    rw [store_add]
    exact h.add file.1 file.2

/-- Files that are added supersede the earlier ones of the same names. -/
theorem superseded_of_mem {r : Record} (hr : w.store.record? id = some r)
    {files : List (String × String)} {text : String} (hmem : (id.name, text) ∈ files) :
    (files.foldl (fun w (name, text) => w.add name text) w).store.Superseded id := by
  induction files generalizing w r with
  | nil => cases hmem
  | cons file rest ih =>
    obtain ⟨first, text'⟩ := file
    by_cases hfirst : first = id.name
    · subst hfirst
      refine superseded_addAll (w := w.add id.name text') ?_ rest
      rw [store_add]
      exact Store.superseded_add hr text'
    · obtain ⟨r', hr', -⟩ := Store.grows_add w.store first text' id r hr
      rw [← store_add] at hr'
      refine ih hr' ((List.mem_cons.mp hmem).resolve_left fun e => hfirst ?_)
      exact (congrArg Prod.fst e).symm

theorem roundRequests_of_superseded (env : Environment) (h : w.store.Superseded id)
    (resolver k place : Nat) (names : List String) :
    roundRequests env id resolver k place w names = [] := by
  induction names generalizing w place with
  | nil => rfl
  | cons name rest ih =>
    have hkept := kept_resolve env w resolver name (some ⟨k, place⟩)
    unfold roundRequests
    rw [if_neg (h.current?_ne name)]
    split
    · rfl
    · rename_i w₁ _ heq
      rw [heq] at hkept
      refine ih ?_ (place + 1)
      unfold Store.Superseded
      rw [hkept.generations]
      exact h

/-- A walk finds no file that is superseded once the walk has added what it adds. -/
theorem walkRequests_of_superseded (envs : Nat → Environment) (k : Nat) (job : WalkJob)
    (h : ((w.walkAdditions k job).foldl (fun w (name, text) => w.add name text) w).store.Superseded
      id) : walkRequests envs id w k job = [] := by
  have hround : ∀ {v : World} (x : Walk), v.store.Superseded id →
      roundRequests (envs x.resolver) id x.resolver k 0 v x.pending = [] :=
    fun x hv => roundRequests_of_superseded _ hv _ _ _ _
  unfold walkRequests
  unfold walkAdditions at h
  cases hx : w.walks[k]? with
  | none => rfl
  | some x =>
    simp only [hx] at h ⊢
    by_cases hstopping : x.stopping = true
    · rw [if_pos hstopping]
    · simp only [if_neg hstopping] at h ⊢
      split
      · have hw : w.store.Superseded id := h
        rw [hround x hw, ite_self]
      · split
        · rename_i missing texts hp hv
          simp only [hp, hv] at h
          exact hround x h
        · rfl
      · split
        · rename_i missing texts hp hv
          simp only [hp, hv] at h
          exact hround x h
        · rfl
      · rfl

theorem store_addAll (files : List (String × String)) (w : World) :
    (files.foldl (fun w (name, text) => w.add name text) w).store =
      files.foldl (fun s (name, text) => s.add name text) w.store := by
  induction files generalizing w with
  | nil => rfl
  | cons file rest ih => exact (ih (w.add file.1 file.2)).trans (by rw [store_add]; rfl)

/-- **Nobody finds a file that is superseded**, be it by the action itself. -/
theorem not_seeks_of_superseded (h : ((w.additions a).foldl (fun w (name, text) => w.add name text)
    w).store.Superseded id) {b : Action} (hb : b ∈ w.dealings envs id a) : ¬b.Seeks := by
  have hnotfound : ∀ {name : String}, w.store.Superseded id → w.store.current? name ≠ some id :=
    fun h => h.current?_ne _
  cases a with
  | tick =>
    simp only [dealings] at hb
    split at hb
    · cases hb
    · split at hb
      · obtain rfl := List.mem_singleton.mp hb
        exact not_false
      · cases hb
    · rename_i k job loop hnext
      rw [walkRequests_of_superseded (w := { w with loop })] at hb
      · cases hb
      · simp only [additions, hnext] at h
        rw [store_addAll] at h ⊢
        exact h
  | add | walk => cases hb
  | register | release =>
    obtain rfl := List.mem_singleton.mp hb
    exact not_false
  | cancelWalk k =>
    obtain ⟨waiter, rfl⟩ := mem_walkGiveUps hb
    exact not_false
  | giveUp other waiter =>
    simp only [dealings] at hb
    split at hb
    · obtain rfl := List.mem_singleton.mp hb
      exact not_false
    · cases hb
  | setText | resolve | resolveWithoutLoop =>
    simp only [dealings, if_neg (hnotfound h)] at hb
    cases hb

theorem superseded_apply (envs : Nat → Environment) (hw : w.Tidy) (h : w.store.Superseded id)
    (a : Action) : (w.apply envs a).store.Superseded id :=
  Nat.lt_of_lt_of_le h (length_generations_run envs hw [a] id.name)

theorem not_seeks_run (hw : w.Tidy) (h : w.store.Superseded id) {actions : List Action}
    {b : Action} (hb : b ∈ allDealings envs id w actions) : ¬b.Seeks := by
  induction actions generalizing w with
  | nil => cases hb
  | cons a rest ih =>
    rcases List.mem_append.mp hb with hb | hb
    · exact not_seeks_of_superseded (superseded_addAll h _) hb
    · exact ih (tidy_apply envs hw a) (superseded_apply envs hw h a) hb

/-- **Where nobody looks for it**, a file has the waiters that it has, and its text stays. -/
theorem unsought_run (hw : w.Tidy) {r : Record} (hr : w.store.record? id = some r)
    {actions : List Action} (h : ∀ b ∈ allDealings envs id w actions, ¬b.Seeks) :
    ∃ r', (w.run envs actions).store.record? id = some r' ∧ r'.text = r.text ∧
      r'.cell.waiters.length = r.cell.waiters.length ∧ r.cell.Joined r'.cell := by
  obtain ⟨l', hl', hdealt⟩ := lane?_run_dealings envs hw (lane?_of_record? hr) actions
  have hkept := Lane.dealAll_of_not_seeks envs w.store.options id h w.registries
    (Lane.heedless ⟨r, w.loop.select (Job.of? id), w.log.filter (Event.isOf id)⟩)
  rw [← hdealt] at hkept
  obtain ⟨r', hr', hjoined⟩ := grows_run envs hw actions id r hr
  obtain rfl := Option.some.inj (hr'.symm.trans (lane?_eq_some.mp hl').1)
  exact ⟨_, hr', hkept.1, by simpa [Lane.heedless, Record.heedless] using hkept.2, hjoined⟩

end World

end DepGraph
