import DepGraph.Proofs.Fetching
import DepGraph.Proofs.SoleWalk

/-!
# A walk goes breadth first

A walk that starts from an empty store, and has it to itself, discovers the graph level by level,
whatever the order in which texts and addresses come.

* `World.Still` — nothing happens that such a walk takes account of.
* `World.Charts` — a walk has visited the levels before its round, is about to resolve that of its
  round, and the store holds what it has fetched.
* `World.charts_performWalk`, `World.charts_apply` — every job of the walk, and whatever else
  happens as time passes, keeps it so.
* `World.walk_is_breadth_first` — what the walk returns.
-/

set_option autoImplicit false

namespace DepGraph

open BreadthFirst (level before)

/-- The job by which walk `k` begins, if it is this one. -/
def Job.start? (k : Nat) : Job → Option Unit
  | .walk j .start => if j = k then some () else none
  | _ => none

namespace World

variable {env : Nat → Environment} {w w' : World} {k : Nat} {x : Walk}

/-! ## What a walk takes no account of -/

/-- Nothing happens that a walk takes account of: the walks stay, the files stay with their texts,
no text is asked for, and no walk begins. -/
structure Still (w w' : World) : Prop where
  walks : w'.walks = w.walks
  kept : w.store.Kept w'.store
  texts : ∀ id r', w'.store.record? id = some r' →
    ∃ r, w.store.record? id = some r ∧ r.text = r'.text
  asked : w'.asked = w.asked
  starts : ∀ k, w'.loop.select (Job.start? k) = w.loop.select (Job.start? k)

theorem Still.refl (w : World) : Still w w :=
  ⟨rfl, .refl _, fun _ r hr => ⟨r, hr, rfl⟩, rfl, fun _ => rfl⟩

theorem Still.trans {w₁ w₂ w₃ : World} (h₁ : Still w₁ w₂) (h₂ : Still w₂ w₃) : Still w₁ w₃ := by
  refine ⟨h₂.walks.trans h₁.walks, h₁.kept.trans h₂.kept, fun id r hr => ?_,
    h₂.asked.trans h₁.asked, fun k => (h₂.starts k).trans (h₁.starts k)⟩
  obtain ⟨r₂, hr₂, ht₂⟩ := h₂.texts id r hr
  obtain ⟨r₁, hr₁, ht₁⟩ := h₁.texts id r₂ hr₂
  exact ⟨r₁, hr₁, ht₁.trans ht₂⟩

theorem still_record (w : World) {events : List Event} (h : ∀ e ∈ events, e.fetch? = none) :
    Still w (w.record events) := by
  refine ⟨rfl, .refl _, fun _ r hr => ⟨r, hr, rfl⟩, ?_, fun _ => rfl⟩
  rw [asked_record, List.filterMap_eq_nil_iff.mpr h, List.append_nil]

theorem still_modifyFile (w : World) (id : FileId) (change : Record → Record)
    (h : ∀ r, w.store.record? id = some r → (change r).text = r.text) :
    Still w (w.modifyFile id change) := by
  refine ⟨rfl, Store.kept_modify _ _ _, fun other r' hr' => ?_, rfl, fun _ => rfl⟩
  have hmodify : (w.store.modify id change).record? other = some r' := hr'
  rw [Store.record?_modify] at hmodify
  split at hmodify
  · rename_i hid
    subst hid
    obtain ⟨r, hr, rfl⟩ := Option.map_eq_some_iff.mp hmodify
    exact ⟨r, hr, (h r hr).symm⟩
  · exact ⟨r', hmodify, rfl⟩

theorem still_loop {w : World} {loop : Loop Job}
    (h : ∀ k, loop.select (Job.start? k) = w.loop.select (Job.start? k)) :
    Still w { w with loop } :=
  ⟨rfl, .refl _, fun _ r hr => ⟨r, hr, rfl⟩, rfl, h⟩

theorem still_post (w : World) {job : Job} (h : ∀ k, Job.start? k job = none) :
    Still w (w.post job) :=
  still_loop fun k => by simp [h k]

theorem still_read (w : World) (id : FileId) (text : String) : Still w (w.read id text) :=
  (still_record w (by simp [Event.fetch?])).trans (still_record _ (by simp [Event.fetch?]))

theorem still_resolve (env : Environment) (w : World) (resolver : Nat) (name : String)
    (listener : Option WalkRef) : Still w (w.resolve env resolver name listener).1 := by
  have hjoin : ∀ (w : World) (id : FileId), Still w (w.join id listener) :=
    fun w id => still_modifyFile w id _ fun _ _ => rfl
  rcases resolve_spec env w resolver name listener with
    ⟨_, h⟩ | ⟨id, r, _, _, ⟨_, _, _, h⟩ | ⟨_, found, notices, _, h⟩ | ⟨_, h⟩⟩ <;> rw [h]
  · exact .refl w
  · exact still_read w id _
  · have hbegin : Still w (w.begin env resolver id r.text found notices) :=
      ((still_read w id _).trans (still_record _ (by simp))).trans
        ((still_modifyFile _ id (fun r => r.start found (workOf env w.store.options resolver id
          found)) fun _ _ => rfl).trans (still_post _ fun _ => rfl))
    exact hbegin.trans (hjoin _ id)
  · exact hjoin w id

theorem still_resolveAll (env : Environment) (resolver k place : Nat) (w : World)
    (names : List String) : Still w (resolveAll env resolver k place w names).1 :=
  resolveAll_induction Still.refl Still.trans
    (fun w name _ => still_resolve env w resolver name _) place w names

theorem still_alert (w : World) (listener : Option WalkRef) : Still w (w.alert listener) := by
  cases listener with
  | none => exact .refl w
  | some ref => exact still_post w fun _ => rfl

/-- The work of a file asks for no text. -/
theorem workOf_asks_nothing (env : Environment) (options : Options) (resolver : Nat) (id : FileId)
    (found : Extraction) :
    (workOf env options resolver id found).join.Logs fun e => e.fetch? = none := by
  refine Join.logs_ofScripts fun s hs => ?_
  obtain ⟨i, hi, rfl⟩ := List.mem_mapIdx.mp hs
  exact Inquiry.script_logs env id i (fun _ => rfl) (fun _ _ => rfl) (fun _ _ => rfl) 0 _

theorem asks_nothing_run (options : Options) (libName : String) (registries : Nat → Registry)
    (actions : List Action) {id : FileId} {r : Record}
    (hr : ((initial options libName registries).run env actions).store.record? id = some r) :
    r.Logs fun e => e.fetch? = none := by
  have htouch : ∀ (a : Action) (l l' : Lane), Lane.Touch env options id a l l' →
      (l.record.Logs fun e => e.fetch? = none) → l'.record.Logs fun e => e.fetch? = none := by
    intro a l l' ht h
    cases ht with
    | start =>
      rintro work ⟨⟩
      exact workOf_asks_nothing _ _ _ _ _
    | _ => exact h
  refine lane_run (P := fun l => l.record.Logs fun e => e.fetch? = none)
    (fun text opened work hwork => by cases hwork) (fun l registries h => ?_) htouch libName
    registries actions (lane?_of_record? hr)
  unfold Lane.turn
  split
  · exact h
  · exact (h.perform (fun _ => rfl) _ _ _ _ _).2

theorem still_performFile {id : FileId}
    (hquiet : ∀ r, w.store.record? id = some r → r.Logs fun e => e.fetch? = none) (job : FileJob) :
    Still w (w.performFile id job) := by
  unfold performFile
  split
  · exact .refl w
  · rename_i r hr
    obtain ⟨hevents, -⟩ :=
      (hquiet r hr).perform (fun _ => rfl) (.file id) id.name w.registries w.loop job
    have hloop : Still w { w with
        loop := (r.perform (.file id) id.name w.registries w.loop job).loop } :=
      still_loop fun k => Record.perform_select_none (fun _ => rfl) _ _ _ _ _
    refine hloop.trans (Still.trans (Still.trans ?_ (still_record _ hevents)) (still_alert _ _))
    refine still_modifyFile _ id _ fun r' hr' => ?_
    obtain rfl := Option.some.inj (hr.symm.trans hr')
    exact text_perform _ _ _ _ _ _

/-! ## Files that are added -/

theorem asked_addAll (files : List (String × String)) (w : World) :
    (files.foldl (fun w (name, text) => w.add name text) w).asked = w.asked := by
  induction files generalizing w with
  | nil => rfl
  | cons file rest ih =>
    refine (ih _).trans ?_
    change (w.add file.1 file.2).asked = w.asked
    unfold add
    split
    · simp [asked, note, record, Event.fetch?]
    · rfl

theorem loop_addAll (files : List (String × String)) (w : World) :
    (files.foldl (fun w (name, text) => w.add name text) w).loop = w.loop := by
  induction files generalizing w with
  | nil => rfl
  | cons file rest ih =>
    exact (ih _).trans (loop_add w file.1 file.2)

theorem names_addAll (files : List (String × String))
    (h : (w.store.names ++ files.map (·.1)).Nodup) :
    (files.foldl (fun w (name, text) => w.add name text) w).store.names =
      w.store.names ++ files.map (·.1) := by
  induction files generalizing w with
  | nil => simp
  | cons file rest ih =>
    obtain ⟨name, text⟩ := file
    have hnew : name ∉ w.store.names := fun hmem =>
      (List.nodup_append.mp h).2.2 name hmem name List.mem_cons_self rfl
    have hadd : (w.add name text).store.names = w.store.names ++ [name] := by
      rw [store_add, Store.names_add, if_neg hnew]
    have hrest := ih (w := w.add name text) (by rw [hadd]; simpa using h)
    rw [List.foldl_cons, hrest, hadd]
    simp

/-- The text of a file that is there afterwards is the one that it had or was added with. -/
theorem record?_addAll {files : List (String × String)} {id : FileId} {r : Record}
    (h : (files.foldl (fun w (name, text) => w.add name text) w).store.record? id = some r) :
    w.store.record? id = some r ∨ (id.name, r.text) ∈ files := by
  induction files generalizing w with
  | nil => exact .inl h
  | cons file rest ih =>
    obtain ⟨name, text⟩ := file
    rcases ih h with h | h
    · rw [store_add, Store.record?_add] at h
      split at h
      · rename_i hid
        obtain rfl := Option.some.inj h
        rw [hid]
        exact .inr List.mem_cons_self
      · exact .inl h
    · exact .inr (List.mem_cons_of_mem _ h)

/-! ## The levels of a walk -/

variable {list : String → List String} {source : String → Ending Cause String}
  {entries : List String} {resolver : Nat}

/-- What the store holds, and what was asked for, in each phase of a walk. -/
def Stands (env : Environment) (k : Nat) (w : World) (x : Walk) : Prop :=
  match x.phase with
  | .starting => x.round = 0 ∧ w.store.names = [] ∧ w.asked = [] ∧ x.fetches.Settled
  | .fetching missing => missing = x.pending ∧ w.store.names = x.visited ∧
      x.Awaits env k x.visited missing w.asked
  | .resolving _ _ => w.store.names = x.visited ++ x.pending ∧
      w.asked.Perm (x.visited ++ x.pending) ∧ x.fetches.Settled
  | .finished => ∀ names, x.outcome = some (.returned names) →
      w.store.names = x.visited ∧ w.asked.Perm x.visited ∧ x.fetches.Settled

/-- Walk `k` is yet to begin if and only if it is due that it begins, once. -/
def Begins (k : Nat) (w : World) (x : Walk) : Prop :=
  match x.phase with
  | .starting => (w.loop.select (Job.start? k)).ready = [()] ∧
      (w.loop.select (Job.start? k)).waiting = []
  | _ => (w.loop.select (Job.start? k)).ready = [] ∧ (w.loop.select (Job.start? k)).waiting = []

/-- The walk has visited the levels before its round and is about to resolve that of its round, and
every file of the store has the text that was fetched for it. -/
structure Levels (list : String → List String) (source : String → Ending Cause String)
    (entries : List String) (resolver k : Nat) (w : World) (x : Walk) : Prop where
  here : w.walks[k]? = some x
  resolver : x.resolver = resolver
  going : x.stopping = false
  visited : x.visited = before list entries x.round
  pending : x.pending = level list entries x.round
  sourced : ∀ id r, w.store.record? id = some r → source id.name = .returned r.text

/-- The walk goes level by level. -/
structure Charts (env : Environment) (list : String → List String)
    (source : String → Ending Cause String) (entries : List String) (resolver k : Nat) (w : World)
    (x : Walk) : Prop extends Levels list source entries resolver k w x where
  stands : Stands env k w x
  begins : Begins k w x

variable {env : Environment}

/-- No walk `k` is to begin. -/
def Begun (k : Nat) (w : World) : Prop :=
  (w.loop.select (Job.start? k)).ready = [] ∧ (w.loop.select (Job.start? k)).waiting = []

theorem Still.begun (h : Still w w') (hb : Begun k w) : Begun k w' := by
  unfold Begun
  rw [h.starts k]
  exact hb

theorem Levels.still (h : Levels list source entries resolver k w x) (hs : Still w w') :
    Levels list source entries resolver k w' x := by
  refine ⟨hs.walks ▸ h.here, h.resolver, h.going, h.visited, h.pending, fun id r' hr' => ?_⟩
  obtain ⟨r, hr, htext⟩ := hs.texts id r' hr'
  rw [← htext]
  exact h.sourced id r hr

theorem Charts.still (h : Charts env list source entries resolver k w x) (hs : Still w w') :
    Charts env list source entries resolver k w' x := by
  refine ⟨h.toLevels.still hs, ?_, ?_⟩
  · have hstands := h.stands
    unfold Stands at hstands ⊢
    rw [hs.kept.names, hs.asked]
    exact hstands
  · have hbegins := h.begins
    unfold Begins at hbegins ⊢
    rw [hs.starts k]
    exact hbegins

theorem Levels.nodup (h : Levels list source entries resolver k w x) :
    (x.visited ++ x.pending).Nodup := by
  rw [h.visited, h.pending, ← BreadthFirst.before_succ]
  exact BreadthFirst.nodup_before _

theorem not_contains_iff (s : Store) (name : String) :
    s.contains name = false ↔ name ∉ s.names := by
  rw [← Store.contains_iff, Bool.not_eq_true]

/-- A change of the walk that leaves its levels as they are. -/
theorem Levels.modifyWalk (h : Levels list source entries resolver k w x) (change : Walk → Walk)
    (hsame : (change x).resolver = x.resolver ∧ (change x).stopping = x.stopping ∧
      (change x).visited = x.visited ∧ (change x).pending = x.pending ∧
      (change x).round = x.round) :
    Levels list source entries resolver k (w.modifyWalk k change) (change x) := by
  obtain ⟨hresolver, hstopping, hvisited, hpending, hround⟩ := hsame
  refine ⟨?_, hresolver.trans h.resolver, hstopping.trans h.going, ?_, ?_, h.sourced⟩
  · rw [getElem?_modifyWalk, if_pos rfl, h.here]
    rfl
  · rw [hvisited, hround, h.visited]
  · rw [hpending, hround, h.pending]

/-! ## Rounds -/

theorem charts_endWalk (h : Levels list source entries resolver k w x) (hbegun : Begun k w)
    {ending : Ending WalkFault (List String)}
    (hending : ∀ names, ending = .returned names → w.store.names = x.visited ∧
      w.asked.Perm x.visited ∧ x.fetches.Settled) :
    ∃ x', Charts env list source entries resolver k (w.endWalk k ending) x' :=
  ⟨_, h.modifyWalk (fun x => { x with phase := .finished, outcome := some ending })
    ⟨rfl, rfl, rfl, rfl, rfl⟩, fun names hnames => hending names (Option.some.inj hnames), hbegun⟩

theorem charts_resolveRound (h : Levels list source entries resolver k w x) (hbegun : Begun k w)
    (hnames : w.store.names = x.visited ++ x.pending)
    (hasked : w.asked.Perm (x.visited ++ x.pending)) (hsettled : x.fetches.Settled) :
    ∃ x', Charts env list source entries resolver k
      (w.resolveRound env k x) x' := by
  have hstill := still_resolveAll env x.resolver k 0 w x.pending
  refine resolveRound_cases (P := fun w' => ∃ x', Charts env list source entries resolver k w' x')
    (fun w₁ refusal heq => ?_) fun w₁ waiters heq => ?_ <;> rw [heq] at hstill
  · exact charts_endWalk (h.still hstill) (hstill.begun hbegun) (by simp)
  · have hlevels := (h.still hstill).modifyWalk (fun x =>
      { x with phase := .resolving waiters (Tally.start waiters.length) }) ⟨rfl, rfl, rfl, rfl, rfl⟩
    have hjobs : Still (w₁.modifyWalk k fun x =>
        { x with phase := .resolving waiters (Tally.start waiters.length) })
        { w₁.modifyWalk k fun x =>
          { x with phase := .resolving waiters (Tally.start waiters.length) } with
          loop := w₁.loop.postAll
            (((w₁.settledPlaces waiters).map WalkJob.resolved).map (.walk k)) } :=
      still_loop fun j => by simp [modifyWalk, List.filterMap_map, Function.comp_def, Job.start?]
    have hcharts : Charts env list source entries resolver k (w₁.modifyWalk k fun x =>
        { x with phase := .resolving waiters (Tally.start waiters.length) }) _ :=
      ⟨hlevels, ⟨hstill.kept.names.trans hnames,
        (show w₁.asked.Perm _ from hstill.asked ▸ hasked), hsettled⟩, hstill.begun hbegun⟩
    exact ⟨_, hcharts.still hjobs⟩

theorem charts_startRound (h : Levels list source entries resolver k w x) (hbegun : Begun k w)
    (hnames : w.store.names = x.visited) (hasked : w.asked.Perm x.visited)
    (hsettled : x.fetches.Settled) :
    ∃ x', Charts env list source entries resolver k (w.startRound env k x) x' := by
  have hmissing : x.pending.filter (fun name => !w.store.contains name) = x.pending := by
    refine List.filter_eq_self.mpr fun name hname => ?_
    have hapart : name ∉ w.store.names := hnames ▸ fun hvisited =>
      (List.nodup_append.mp h.nodup).2.2 name hvisited name hname rfl
    simp [(not_contains_iff w.store name).mpr hapart]
  refine startRound_cases (P := fun w' => ∃ x', Charts env list source entries resolver k w' x')
    (fun _ => charts_endWalk h hbegun fun names hnames' => ⟨hnames, hasked, hsettled⟩)
    (fun hpending hknown => ?_) fun _ missing hall _ => ?_
  · refine absurd (List.filter_eq_nil_iff.mpr fun name hname => ?_) (hmissing ▸ hpending)
    simp [hknown name hname]
  · obtain rfl : missing = x.pending := hall.trans hmissing
    have hloop : Still w { w with
        loop := (Join.perform (fun j => Job.walk k (.fetch j)) w.loop
          (Join.ofScripts (fetchScripts env k x.round x.pending)) .launch).2.1 } :=
      still_loop fun j => Join.perform_select_none (fun _ => rfl) _ _ _
    refine ⟨_, (h.still hloop).modifyWalk (fun y => { y with
      phase := .fetching x.pending,
      fetches := Join.ofScripts (fetchScripts env k x.round x.pending) })
      ⟨rfl, rfl, rfl, rfl, rfl⟩, ⟨rfl, hnames, ?_⟩, hloop.begun hbegun⟩
    exact Walk.awaits_ofScripts hasked (fun name hname hvisited =>
      (List.nodup_append.mp h.nodup).2.2 name hvisited name hname rfl) rfl

theorem charts_addRound (h : Levels list source entries resolver k w x) (hbegun : Begun k w)
    (hnames : w.store.names = x.visited) {texts : List String}
    (hlength : texts.length = x.pending.length)
    (htexts : ∀ (i : Nat) (name text : String), x.pending[i]? = some name →
      texts[i]? = some text → source name = .returned text)
    (hasked : w.asked.Perm (x.visited ++ x.pending)) (hsettled : x.fetches.Settled) :
    ∃ x', Charts env list source entries resolver k
      (w.addRound env k x x.pending texts) x' := by
  have hfiles : (x.pending.zip texts).map (·.1) = x.pending := List.map_fst_zip hlength.ge
  have hnames' := names_addAll (w := w) (x.pending.zip texts)
    (by rw [hfiles, hnames]; exact h.nodup)
  have hloop := loop_addAll (x.pending.zip texts) w
  have hlevels : Levels list source entries resolver k
      ((x.pending.zip texts).foldl (fun w (name, text) => w.add name text) w) x := by
    refine ⟨(congrArg (·[k]?) (walks_addAll _ w)).trans h.here, h.resolver, h.going, h.visited,
      h.pending, fun id r hr => ?_⟩
    rcases record?_addAll hr with hr | hadded
    · exact h.sourced id r hr
    · obtain ⟨i, hi⟩ := List.mem_iff_getElem?.mp hadded
      obtain ⟨hname, htext⟩ := List.getElem?_zip_eq_some.mp hi
      exact htexts i _ _ hname htext
  refine charts_resolveRound hlevels ?_ ?_ ?_ hsettled
  · unfold Begun
    rw [hloop]
    exact hbegun
  · rw [hnames', hfiles, hnames]
  · rw [asked_addAll]
    exact hasked

/-- What the files of a round list is what the walk goes on with, as far as it is new. -/
theorem unfetched_eq (h : Levels list source entries resolver k w x)
    (hnames : w.store.names = x.visited ++ x.pending) {infos : List Dependencies}
    (hlength : infos.length = x.pending.length)
    (hinfos : ∀ (i : Nat) (info : Dependencies), infos[i]? = some info →
      ∃ name, x.pending[i]? = some name ∧ info.list = list name) :
    w.unfetched infos = level list entries (x.round + 1) := by
  have hlists : infos.flatMap (·.list) = x.pending.flatMap list := by
    refine congrArg List.flatten (List.ext_getElem? fun i => ?_)
    simp only [List.getElem?_map]
    cases hi : infos[i]? with
    | none =>
      have hnone : x.pending[i]? = none := by
        rw [List.getElem?_eq_none_iff] at hi ⊢
        omega
      simp [hnone]
    | some info =>
      obtain ⟨name, hname, hlist⟩ := hinfos i info hi
      simp [hname, hlist]
  rw [unfetched, Dependencies.distinct_eq, hlists, BreadthFirst.level_succ, h.pending]
  refine congrArg List.eraseDups (List.filter_congr fun name _ => ?_)
  have hknown : w.store.contains name = decide (name ∈ before list entries (x.round + 1)) := by
    rw [BreadthFirst.before_succ, ← h.visited, ← h.pending, ← hnames, Bool.eq_iff_iff,
      Store.contains_iff, decide_eq_true_iff]
  rw [hknown, ← decide_not]

theorem charts_finishRound (h : Levels list source entries resolver k w x) (hbegun : Begun k w)
    (hnames : w.store.names = x.visited ++ x.pending)
    (hasked : w.asked.Perm (x.visited ++ x.pending)) (hsettled : x.fetches.Settled)
    {infos : List Dependencies} (hlength : infos.length = x.pending.length)
    (hinfos : ∀ (i : Nat) (info : Dependencies), infos[i]? = some info →
      ∃ name, x.pending[i]? = some name ∧ info.list = list name) :
    ∃ x', Charts env list source entries resolver k
      (w.finishRound env k x infos) x' := by
  have hfresh := unfetched_eq h hnames hlength hinfos
  have hvisited : Dependencies.distinct (x.visited ++ x.pending) = x.visited ++ x.pending := by
    rw [Dependencies.distinct_eq, Dependencies.eraseDups_of_nodup h.nodup]
  unfold finishRound
  simp only [hvisited]
  have hnote : Still w (w.note (.walked x.pending.length (w.unfetched infos).length)) :=
    still_record w (by simp)
  refine charts_startRound (x := { x with
    visited := x.visited ++ x.pending, pending := w.unfetched infos, round := x.round + 1 })
    ⟨?_, h.resolver, h.going, ?_, hfresh, (h.still hnote).sourced⟩ hbegun hnames ?_ hsettled
  · rw [getElem?_modifyWalk, if_pos rfl]
    exact congrArg _ h.here
  · rw [BreadthFirst.before_succ, h.visited, h.pending]
  · exact hnote.asked ▸ hasked

/-! ## Jobs of the walk -/

theorem Charts.begun (h : Charts env list source entries resolver k w x)
    (hphase : x.phase ≠ .starting) : Begun k w := by
  have hbegins := h.begins
  unfold Begins at hbegins
  split at hbegins
  · rename_i hp
    exact absurd hp hphase
  · exact hbegins

/-- What a walk has resolved lists what the graph says. -/
def Follows (list : String → List String) (w : World) : Prop :=
  ∀ name info, w.store.Resolved name info → info.list = list name

theorem charts_wakeWalk (h : Charts env list source entries resolver k w x)
    (hsource : ∀ id name, (env.source id name).outcome = source name)
    (ha : x.Attends w.store) (hfollows : Follows list w) :
    ∃ x', Charts env list source entries resolver k (w.wakeWalk env k x) x' := by
  have hstands := h.stands
  refine wakeWalk_cases (P := fun w' => ∃ x', Charts env list source entries resolver k w' x')
    ⟨x, h⟩ (fun ending hending hwhy => ?_) (fun _ missing texts hp hv => ?_)
    fun _ waiters tally infos hp hv => ?_
  · have hbegun := h.begun (hwhy.resolve_left (by simp [h.going]))
    exact charts_endWalk h.toLevels hbegun fun names hnames => absurd hnames (hending names)
  · have hbegun := h.begun (by rw [hp]; simp)
    simp only [Stands, hp] at hstands
    obtain ⟨rfl, hnames, hawaits⟩ := hstands
    obtain ⟨hlength, htexts, hsettled, hasked⟩ := hawaits.returned h.nodup hv
    exact charts_addRound h.toLevels hbegun hnames hlength
      (fun i name text hi ht =>
        (hsource ⟨k, x.round, i⟩ name).symm.trans (htexts i name text hi ht)) hasked
      hsettled
  · have hbegun := h.begun (by rw [hp]; simp)
    simp only [Stands, hp] at hstands
    simp only [Walk.Attends, hp] at ha
    obtain ⟨hnames, hasked, hsettled⟩ := hstands
    obtain ⟨-, -, hlength, hvouches⟩ := ha
    obtain ⟨hinfos, hvalues⟩ := hvouches.verdict infos hv
    refine charts_finishRound h.toLevels hbegun hnames hasked hsettled (hinfos.trans hlength)
      fun i info hi => ?_
    obtain ⟨name, hname, hresolved⟩ := hvalues i info hi
    exact ⟨name, hname, hfollows name info hresolved⟩

theorem charts_hearWalk (h : Charts env list source entries resolver k w x) (place : Nat) :
    ∃ x', Charts env list source entries resolver k (w.hearWalk k x place) x' := by
  refine hearWalk_cases (P := fun w' => ∃ x', Charts env list source entries resolver k w' x')
    ⟨x, h⟩ fun waiters tally ending hp _ => ?_
  have hbegun := h.begun (by rw [hp]; simp)
  have hstands := h.stands
  simp only [Stands, hp] at hstands
  have hheard : Charts env list source entries resolver k (w.modifyWalk k fun x =>
      { x with phase := .resolving waiters (tally.hear place ending) }) _ :=
    ⟨h.toLevels.modifyWalk (fun x =>
      { x with phase := .resolving waiters (tally.hear place ending) })
      ⟨rfl, rfl, rfl, rfl, rfl⟩, hstands, hbegun⟩
  exact ⟨⟨_, hheard⟩, _, hheard.still (still_post _ fun _ => rfl)⟩

/-- A job of the texts that the walk fetches. -/
theorem charts_fetch (h : Charts env list source entries resolver k w x) (job : JoinJob) :
    ∃ x', Charts env list source entries resolver k (w.performFetch k x job) x' := by
  have hloop : Still w { w with
      loop := (x.fetches.perform (fun j => Job.walk k (.fetch j)) w.loop job).2.1 } :=
    still_loop fun j => Join.perform_select_none (fun _ => rfl) _ _ _
  have hlevels := (h.toLevels.still hloop).modifyWalk (fun y => { y with
    fetches := (x.fetches.perform (fun j => Job.walk k (.fetch j)) w.loop job).2.2 })
    ⟨rfl, rfl, rfl, rfl, rfl⟩
  refine ⟨_, ⟨hlevels.here, hlevels.resolver, hlevels.going, hlevels.visited, hlevels.pending,
    hlevels.sourced⟩, ?_, ?_⟩
  · have hstands := h.stands
    unfold Stands at hstands ⊢
    simp only [asked_performFetch]
    have hsettled : ∀ asked : List String, x.fetches.Settled →
        asked ++ (x.fetches.perform (fun j => Job.walk k (.fetch j)) w.loop job).1.filterMap
          Event.fetch? = asked ∧
        (x.fetches.perform (fun j => Job.walk k (.fetch j)) w.loop job).2.2.Settled := by
      intro asked hsettled
      obtain ⟨hevents, hafter⟩ := hsettled.perform (fun j => Job.walk k (.fetch j)) w.loop job
      exact ⟨by rw [hevents]; simp, hafter⟩
    split at hstands
    · obtain ⟨hround, hnames, hasked, hdone⟩ := hstands
      obtain ⟨hsame, hafter⟩ := hsettled w.asked hdone
      exact ⟨hround, hnames, hsame.trans hasked, hafter⟩
    · obtain ⟨hmissing, hnames, hawaits⟩ := hstands
      exact ⟨hmissing, hnames, hawaits.perform
        (hmissing ▸ (List.nodup_append.mp h.toLevels.nodup).2.1) w.loop job⟩
    · obtain ⟨hnames, hasked, hdone⟩ := hstands
      obtain ⟨hsame, hafter⟩ := hsettled w.asked hdone
      exact ⟨hnames, (List.Perm.of_eq hsame).trans hasked, hafter⟩
    · intro names hreturned
      obtain ⟨hnames, hasked, hdone⟩ := hstands names hreturned
      obtain ⟨hsame, hafter⟩ := hsettled w.asked hdone
      exact ⟨hnames, (List.Perm.of_eq hsame).trans hasked, hafter⟩
  · have hbegins := h.begins
    unfold Begins at hbegins ⊢
    rw [← hloop.starts k] at hbegins
    exact hbegins

/-- **Every job of the walk** but its first leaves it going level by level. -/
theorem charts_performWalk (h : Charts env list source entries resolver k w x)
    (hsource : ∀ id name, (env.source id name).outcome = source name) (ha : x.Attends w.store)
    (hfollows : Follows list w) {job : WalkJob} (hjob : job ≠ .start) :
    ∃ x', Charts env list source entries resolver k (w.performWalk env k job) x' :=
  performWalk_cases (P := fun w' => ∃ x', Charts env list source entries resolver k w' x') h.here
    job (fun hstart => absurd hstart hjob) (fun hstart => absurd hstart hjob)
    (charts_wakeWalk h hsource ha hfollows) (charts_fetch h) (charts_hearWalk h)

/-- And so does its first. -/
theorem charts_start (h : Levels list source entries resolver k w x) (hbegun : Begun k w)
    (hstands : Stands env k w x) (hphase : x.phase = .starting) :
    ∃ x', Charts env list source entries resolver k (w.performWalk env k .start) x' := by
  simp only [Stands, hphase] at hstands
  obtain ⟨hround, hnames, hasked, hsettled⟩ := hstands
  have hvisited : x.visited = [] := by rw [h.visited, hround, BreadthFirst.before_zero]
  simp only [performWalk, h.here, h.going, Bool.false_eq_true, if_false]
  exact charts_startRound h hbegun (hnames.trans hvisited.symm)
    (by rw [hasked, hvisited]) hsettled

end World

namespace World

variable {env : Nat → Environment} {w : World} {list : String → List String}
  {source : String → Ending Cause String} {entries : List String} {resolver k : Nat} {x : Walk}

/-- Taking a job that begins no walk leaves the walk as it is. -/
theorem Charts.pop {env : Environment} (h : Charts env list source entries resolver k w x)
    {job : Job} {loop : Loop Job} (hnext : w.loop.next? = some (job, loop))
    (hjob : Job.start? k job = none) :
    Charts env list source entries resolver k { w with loop } x := by
  refine ⟨⟨h.here, h.resolver, h.going, h.visited, h.pending, h.sourced⟩, h.stands, ?_⟩
  have hbegins := h.begins
  unfold Begins at hbegins ⊢
  rw [← select_next? hnext hjob] at hbegins
  exact hbegins

theorem Charts.release {env : Environment} (h : Charts env list source entries resolver k w x)
    (gate : Gate) : Charts env list source entries resolver k (w.release gate) x := by
  refine ⟨⟨h.here, h.resolver, h.going, h.visited, h.pending, h.sourced⟩, h.stands, ?_⟩
  have hbegins := h.begins
  unfold Begins at hbegins ⊢
  simp only [World.release, Loop.select_release]
  split at hbegins <;> simp [Loop.release, hbegins.1, hbegins.2]

/-- **As time passes** the walk goes level by level, if it is the only one. -/
theorem charts_apply (h : Charts (env resolver) list source entries resolver k w x)
    (hsource : ∀ id name, ((env resolver).source id name).outcome = source name)
    (hothers : ∀ j, j ≠ k → w.walks[j]? = none) (ha : x.Attends w.store) (hfollows : Follows list w)
    (hquiet : ∀ id r, w.store.record? id = some r → r.Logs fun e => e.fetch? = none) {a : Action}
    (hpassing : a.IsPassing) :
    ∃ x', Charts (env resolver) list source entries resolver k (w.apply env a) x' := by
  rcases hpassing with rfl | ⟨gate, rfl⟩
  · simp only [apply, tick]
    split
    · exact ⟨x, h⟩
    · rename_i job loop hnext
      cases job with
      | file id job =>
        exact ⟨x, (h.pop hnext rfl).still
          (still_performFile (w := { w with loop }) (hquiet id) job)⟩
      | walk j job =>
        by_cases hjk : j = k
        · subst hjk
          have hperform : ({ w with loop } : World).perform env (.walk j job) =
              ({ w with loop } : World).performWalk (env resolver) j job := by
            simp [perform, h.here, h.resolver]
          rw [hperform]
          by_cases hjob : job = .start
          · -- That it begins was due once, so it is not due any more.
            subst hjob
            have hselect := next?_select hnext
              (show Job.start? j (.walk j .start) = some () from if_pos rfl)
            obtain ⟨hwaiting, -, hready⟩ := Loop.waiting_next? hselect
            have hbegins := h.begins
            unfold Begins at hbegins
            split at hbegins
            · rename_i hphase
              obtain ⟨hone, hnone⟩ := hbegins
              rw [hready] at hone
              refine charts_start (w := { w with loop })
                ⟨h.here, h.resolver, h.going, h.visited, h.pending, h.sourced⟩
                ⟨(List.cons_eq_cons.mp hone).2, ?_⟩ h.stands hphase
              exact hwaiting.trans hnone
            · rw [hready] at hbegins
              cases hbegins.1
          · have hnot : Job.start? j (.walk j job) = none := by
              cases job with
              | start => exact absurd rfl hjob
              | _ => rfl
            exact charts_performWalk (h.pop hnext hnot) hsource ha hfollows hjob
        · have hnot : Job.start? k (.walk j job) = none := by
            cases job with
            | start => exact if_neg hjk
            | _ => rfl
          have hidle : ({ w with loop } : World).perform env (.walk j job) = { w with loop } := by
            simp [perform, performWalk, hothers j hjk]
          rw [hidle]
          exact ⟨x, h.pop hnext hnot⟩
  · exact ⟨x, h.release gate⟩

/-! ## Runs -/

/-- The dependencies of a file in the graph that the injected functions give, with what a resolver
has registered. A file whose text cannot be fetched or read, or one of whose specifiers fails, has
none. -/
def graph (env : Environment) (answers : Answers) (source : String → Ending Cause String)
    (options : Options) (registry : Registry) (name : String) : Option Dependencies :=
  match source name with
  | .returned text =>
    match env.extract text with
    | .ok (found, _) => answers.dependencies options name found.occurrences registry
    | .error _ => none
  | _ => none

/-- The files that a file lists in a graph. -/
def listed (graph : String → Option Dependencies) (name : String) : List String :=
  ((graph name).map (·.list)).getD []

/-- The world in which a walk was requested of an empty store. -/
def walking (options : Options) (libName : String) (registries : Nat → Registry) (resolver : Nat)
    (entries : List String) : World :=
  ((initial options libName registries).walk resolver entries).1

section Walking

variable (env : Nat → Environment) (options : Options) (libName : String)
  (registries : Nat → Registry) (resolver : Nat) (entries : List String)

theorem run_walk (later : List Action) :
    (initial options libName registries).run env (.walk resolver entries :: later) =
      (walking options libName registries resolver entries).run env later := rfl

/-- There is no other walk. -/
theorem no_other_walk {later : List Action} (hlater : ∀ a ∈ later, a.IsPassing) {j : Nat}
    (hj : j ≠ 0) :
    ((walking options libName registries resolver entries).run env later).walks[j]? = none := by
  have hresolvers := resolvers_run env (walking options libName registries resolver entries) hlater
  have hlength := congrArg List.length hresolvers
  rw [resolvers, resolvers, List.length_map, List.length_map] at hlength
  rw [List.getElem?_eq_none_iff, hlength]
  exact Nat.pos_of_ne_zero hj

/-- What is resolved in the course of the walk depends on what the graph says. -/
theorem graph_of_resolved {answers : Answers} (hgives : (env resolver).Gives answers)
    {later : List Action} (hlater : ∀ a ∈ later, a.IsPassing)
    (hsourced : ∀ id r, ((walking options libName registries resolver entries).run env
      later).store.record? id = some r → source id.name = .returned r.text)
    {name : String} {info : Dependencies}
    (h : ((walking options libName registries resolver entries).run env later).store.Resolved name
      info) :
    graph (env resolver) answers source options (registries resolver) name = some info := by
  obtain ⟨id, r, hid, hr, hs⟩ := h
  obtain rfl := Store.current?_name hid
  have hpassing : ∀ a ∈ Action.walk resolver entries :: later,
      a = .walk resolver entries ∨ a.IsPassing := fun a ha =>
    (List.mem_cons.mp ha).imp_right (hlater a)
  have hset : ∀ name text, .setText name text ∉ Action.walk resolver entries :: later := by
    intro name text hmem
    rcases hpassing _ hmem with h | h | ⟨gate, h⟩ <;> cases h
  have hregister : ∀ k address, .register k address ∉ Action.walk resolver entries :: later := by
    intro k address hmem
    rcases hpassing _ hmem with h | h | ⟨gate, h⟩ <;> cases h
  -- The run is one in which nobody else can read texts.
  have hsole : ∀ k ∈ (walking options libName registries resolver entries).resolvers,
      k = resolver := by
    simp [walking, walk, World.resolvers, post, initial]
  have hr' := hr
  rw [← run_onlyReads env hsole hlater, ← run_walk] at hr'
  have hgives' : (onlyReads env resolver resolver).Gives answers := by rwa [onlyReads_self]
  obtain ⟨found, notices, he, hdependencies⟩ := done_as_answered _ options libName registries
    (fun _ _ _ => eq_of_onlyReads) hgives' _ hset hregister hr' hs
  rw [onlyReads_self] at he
  simp only [graph, hsourced id r hr, he, hdependencies]

/-- A walk that is requested of an empty store is at level 0. -/
theorem charts_walking (env : Environment) :
    Charts env list source entries resolver 0
      (walking options libName registries resolver entries)
      { resolver, pending := Dependencies.distinct entries } := by
  refine ⟨⟨rfl, rfl, rfl, rfl, Dependencies.distinct_eq entries, fun id r hr => ?_⟩,
    ⟨rfl, rfl, rfl, ?_⟩, rfl, rfl⟩
  · have hnone : (initial options libName registries).store.record? id = some r := hr
    simp [initial, Store.record?, Store.generations] at hnone
  · intro m hm
    cases hm

/-- What the walk has covered. -/
theorem tracks_walking {later : List Action} (hlater : ∀ a ∈ later, a.IsPassing) :
    ((walking options libName registries resolver entries).run env later).Tracks
      (initial options libName registries).store entries 0 := by
  have htracks := tracks_walk (initial options libName registries) resolver entries
  refine tracks_run options libName registries [.walk resolver entries] rfl htracks later
    (fun name text hmem => ?_) fun before after hsplit j x hj hx => ?_
  · rcases hlater _ hmem with hmem | ⟨gate, hmem⟩ <;> cases hmem
  · have hnone := no_other_walk env options libName registries resolver entries
      (fun a ha => hlater a (hsplit ▸ List.mem_append_left _ ha)) hj
    exact absurd (hnone.symm.trans hx) nofun

variable {resolver}

/-- **Throughout the run** the walk goes level by level. -/
theorem charts_run {answers : Answers} (hgives : (env resolver).Gives answers)
    (hsource : ∀ id name, ((env resolver).source id name).outcome = source name)
    {g : String → Option Dependencies}
    (hg : g = graph (env resolver) answers source options (registries resolver))
    {later : List Action} (hlater : ∀ a ∈ later, a.IsPassing) :
    ∃ x, Charts (env resolver) (listed g) source entries resolver 0
      ((walking options libName registries resolver entries).run env later) x := by
  induction later using List.reverseRec with
  | nil => exact ⟨_, charts_walking _ _ _ _ _ _⟩
  | append_singleton later a ih =>
    have hbefore : ∀ b ∈ later, b.IsPassing := fun b hb => hlater b (List.mem_append_left _ hb)
    obtain ⟨x, hx⟩ := ih hbefore
    obtain ⟨y, hy, -, hattends, -⟩ :=
      tracks_walking env options libName registries resolver entries hbefore
    obtain rfl := Option.some.inj (hx.here.symm.trans hy)
    rw [run_concat]
    refine charts_apply hx hsource
      (fun j hj => no_other_walk env options libName registries resolver entries hbefore hj)
      hattends (fun name info hresolved => ?_) (fun id r hr => ?_) (hlater a (by simp))
    · rw [listed, hg, graph_of_resolved env options libName registries resolver entries hgives
        hbefore hx.sourced hresolved]
      rfl
    · exact asks_nothing_run options libName registries (.walk resolver entries :: later) hr

end Walking

/-- **Any walk that has an empty store to itself goes breadth first.** Let the texts and the
addresses be given by functions of their arguments, let declarations be registered as may be, and
let a walk be requested of an empty store. However long each text and each address takes, if the
walk returns, it returns the levels of the breadth-first search from its entries, one after the
other and each name once; they are the names of the store, each was fetched exactly once, and each
is resolved to what it depends on in the graph. -/
theorem walk_is_breadth_first (env : Nat → Environment) (options : Options) (libName : String)
    (registries : Nat → Registry) (resolver : Nat) {answers : Answers}
    (hgives : (env resolver).Gives answers) {source : String → Ending Cause String}
    (hsource : ∀ id name, ((env resolver).source id name).outcome = source name)
    (entries : List String) (later : List Action) (hlater : ∀ a ∈ later, a.IsPassing) {w : World}
    (hw : w = (initial options libName registries).run env (.walk resolver entries :: later))
    {x : Walk} {names : List String} (hx : w.walks[0]? = some x)
    (hreturned : x.outcome = some (.returned names))
    {g : String → Option Dependencies}
    (hg : g = graph (env resolver) answers source options (registries resolver)) :
    names.Nodup ∧ names = w.store.names ∧
    (∃ n, ∀ m, n ≤ m → before (listed g) entries m = names) ∧
    w.asked.Perm names ∧
    ∀ name ∈ names, ∃ r info, w.store.find? name = some r ∧ r.cell.state = .done ∧
      r.dependencies = some info ∧ g name = some info := by
  subst hw
  rw [run_walk] at hx ⊢
  obtain ⟨y, hcharts⟩ := charts_run env options libName registries entries hgives hsource hg hlater
  obtain rfl := Option.some.inj (hx.symm.trans hcharts.here)
  obtain ⟨y, hy, hcovers, -, hreturns⟩ :=
    tracks_walking env options libName registries resolver entries hlater
  obtain rfl := Option.some.inj (hx.symm.trans hy)
  obtain ⟨rfl, hpending, hphase⟩ := hreturns names hreturned
  have hstands := hcharts.stands
  simp only [Stands, hphase] at hstands
  obtain ⟨hnames, hasked, -⟩ := hstands _ hreturned
  have hlevel : level (listed g) entries x.round = [] := hcharts.pending.symm.trans hpending
  refine ⟨hcovers.once.1, hnames.symm, ⟨x.round, fun m hm => ?_⟩, hasked, fun name hname => ?_⟩
  · rw [(BreadthFirst.before_eq_of_level_nil hlevel hm).2, hcharts.visited]
  · obtain ⟨info, hresolved, -⟩ := hcovers.resolved name hname
    have hinfo := graph_of_resolved env options libName registries resolver entries hgives hlater
      hcharts.sourced hresolved
    obtain ⟨id, r, hid, hr, hs⟩ := hresolved
    have hlawful := lawful_run options libName registries (.walk resolver entries :: later)
      (lane?_of_record? hr)
    refine ⟨r, info, (Store.find?_eq hid).trans hr, by simp [Cell.state, hs], ?_, hg ▸ hinfo⟩
    rw [hlawful.dependencies_eq]
    simp [Cell.result?, hs]

/-- Three files: the first imports the others, the second the third, and the third itself. Each text
comes when a gate of the name of its file is opened. -/
def threeImporters : Nat → Environment := fun _ =>
  { address := fun _ specifier _ =>
      { outcome := .returned (if specifier = "./a" then "/a.ts" else "/b.ts") }
    descriptor := fun _ _ => { outcome := .returned ⟨[]⟩ }
    source := fun _ name => { gates := [name], outcome := .returned name }
    extract := fun text =>
      .ok ({ imports := if text = "/i.ts" then ["./b", "./a"] else ["./a"] }, []) }

/-- The text of the third file comes before that of the second. -/
def backwards : List Action :=
  [.tick, .tick, .release "/i.ts"] ++ List.replicate 10 .tick ++ [.release "/a.ts"] ++
    List.replicate 4 .tick ++ [.release "/b.ts"] ++ List.replicate 30 .tick

theorem walk_is_breadth_first_backwards : ∃ w x,
    w = (initial {} defaultLibName fun _ => {}).run threeImporters
      (.walk 0 ["/i.ts", "/i.ts"] :: backwards) ∧
    w.walks[0]? = some x ∧ x.outcome = some (.returned ["/i.ts", "/b.ts", "/a.ts"]) ∧
    w.asked.Perm ["/i.ts", "/b.ts", "/a.ts"] := by
  have hlater : ∀ a ∈ backwards, a.IsPassing := by
    have hall : ∀ a ∈ backwards, a = .tick ∨ a = .release "/i.ts" ∨ a = .release "/a.ts" ∨
        a = .release "/b.ts" := by decide
    intro a ha
    rcases hall a ha with rfl | rfl | rfl | rfl
    exacts [.inl rfl, .inr ⟨_, rfl⟩, .inr ⟨_, rfl⟩, .inr ⟨_, rfl⟩]
  obtain ⟨x, hx, hreturned⟩ : ∃ x, ((initial {} defaultLibName fun _ => {}).run threeImporters
      (.walk 0 ["/i.ts", "/i.ts"] :: backwards)).walks[0]? = some x ∧
      x.outcome = some (.returned ["/i.ts", "/b.ts", "/a.ts"]) := by
    have hreturned : ((initial {} defaultLibName fun _ => {}).run threeImporters
        (.walk 0 ["/i.ts", "/i.ts"] :: backwards)).walks[0]?.map Walk.outcome =
        some (some (.returned ["/i.ts", "/b.ts", "/a.ts"])) := by decide +kernel
    exact Option.map_eq_some_iff.mp hreturned
  have hgives : (threeImporters 0).Gives
      ⟨fun specifier _ => .returned (if specifier = "./a" then "/a.ts" else "/b.ts"),
        fun _ => .returned ⟨[]⟩⟩ := ⟨fun _ _ _ => rfl, fun _ _ => rfl⟩
  have hsource : ∀ id name, ((threeImporters 0).source id name).outcome = .returned name :=
    fun _ _ => rfl
  obtain ⟨-, -, -, hasked, -⟩ := walk_is_breadth_first threeImporters {} defaultLibName
    (fun _ => {}) 0 hgives hsource ["/i.ts", "/i.ts"] backwards hlater rfl hx hreturned rfl
  exact ⟨_, x, rfl, hx, hreturned, hasked⟩

end World

end DepGraph
