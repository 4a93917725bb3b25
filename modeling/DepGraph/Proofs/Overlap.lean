import DepGraph.Proofs.Discovery

/-!
# Walks that overlap

A walk looks up which files of a round the store lacks, waits for their texts, and adds them all
without looking again. What another walk has added in the meantime is replaced.

* `Walk.awaited`, `World.awaiting` — the texts that a walk waits for, and how many walks wait for
  one.
* `World.Proceeds` — what a job of a walk does to what it waits for.
* `World.addedOrAwaited_apply` — no action other than the adding of a file raises the number of
  records of a known name and of walks that wait for it.
* `World.overlapping_walks_add` — how often a name is added, and how often it is read.
-/

set_option autoImplicit false

namespace DepGraph

/-- The files whose texts a walk waits for. -/
def Walk.awaited (x : Walk) : List String :=
  match x.phase with
  | .fetching missing => missing
  | _ => []

/-- Neither the files of a round nor those whose texts it waits for are repeated. -/
structure Walk.Distinct (x : Walk) : Prop where
  pending : x.pending.Nodup
  awaited : x.awaited.Nodup

theorem Walk.Distinct.of_awaited_nil {x : Walk} (h : x.pending.Nodup) (hnil : x.awaited = []) :
    x.Distinct := ⟨h, hnil ▸ List.nodup_nil⟩

namespace World

variable {env : Environment} {w : World} {k : Nat} {x z : Walk} {name : String}

/-- How many walks wait for the text of a file. -/
def awaiting (w : World) (name : String) : Nat := w.walks.countP fun x => name ∈ x.awaited

/-- Walk `k`, which was `x`, waits for the texts that it waited for, or for texts of files that the
store does not know. -/
def Proceeds (k : Nat) (x : Walk) (w : World) : Prop :=
  ∃ y, w.walks[k]? = some y ∧ y.Distinct ∧
    (y.awaited = x.awaited ∨ ∀ name ∈ y.awaited, w.store.contains name = false)

/-! ## What a walk waits for after one of its jobs -/

theorem proceeds_modifyWalk (hz : w.walks[k]? = some z) {change : Walk → Walk}
    (hdistinct : (change z).Distinct) (h : (change z).awaited = x.awaited ∨
      ∀ name ∈ (change z).awaited, w.store.contains name = false) :
    (w.modifyWalk k change).Proceeds k x := by
  refine ⟨change z, ?_, hdistinct, h⟩
  rw [getElem?_modifyWalk, if_pos rfl, hz]
  rfl

theorem proceeds_endWalk (hz : w.walks[k]? = some z) (hpending : z.pending.Nodup)
    (ending : Ending WalkFault (List String)) : (w.endWalk k ending).Proceeds k x :=
  proceeds_modifyWalk hz ⟨hpending, List.nodup_nil⟩ (.inr nofun)

/-- Once the files of a round are asked for, the walk waits for no text. -/
theorem awaited_resolveRound (hz : w.walks[k]? = some z) (env : Environment) (y : Walk) :
    ∃ z', (w.resolveRound env k y).walks[k]? = some z' ∧ z'.pending = z.pending ∧
      z'.awaited = [] := by
  have hwalks := walks_resolveAll env y.resolver k 0 w y.pending
  have hmodified : ∀ (w' : World) (change : Walk → Walk), w'.walks = w.walks →
      (w'.modifyWalk k change).walks[k]? = some (change z) := by
    intro w' change h
    rw [getElem?_modifyWalk, if_pos rfl, h, hz]
    rfl
  refine resolveRound_cases (P := fun w' => ∃ z', w'.walks[k]? = some z' ∧
    z'.pending = z.pending ∧ z'.awaited = []) (fun w₁ refusal heq => ?_)
    fun w₁ waiters heq => ?_ <;> rw [heq] at hwalks
  · exact ⟨_, hmodified _ _ hwalks, rfl, rfl⟩
  · exact ⟨_, hmodified _ _ hwalks, rfl, rfl⟩

theorem proceeds_resolveRound (hz : w.walks[k]? = some z) (hpending : z.pending.Nodup)
    (env : Environment) (y : Walk) : (w.resolveRound env k y).Proceeds k x := by
  obtain ⟨z', hz', hsame, hnil⟩ := awaited_resolveRound hz env y
  exact ⟨z', hz', .of_awaited_nil (hsame ▸ hpending) hnil, .inr (by simp [hnil])⟩

/-- A round waits for the files that the store does not know when it begins. -/
theorem proceeds_startRound (hz : w.walks[k]? = some z) (hpending : z.pending.Nodup)
    (env : Environment) : (w.startRound env k z).Proceeds k x := by
  refine startRound_cases (fun _ => proceeds_endWalk hz hpending _)
    (fun _ _ => proceeds_resolveRound hz hpending _ _) fun _ missing hmissing _ => ?_
  subst hmissing
  refine proceeds_modifyWalk (w := { w with loop := _ }) hz ⟨hpending, hpending.filter _⟩
    (.inr fun name hname => ?_)
  exact Bool.not_eq_true' _ ▸ (List.mem_filter.mp hname).2

theorem proceeds_wakeWalk (hx : w.walks[k]? = some x) (hdistinct : x.Distinct)
    (env : Environment) : (w.wakeWalk env k x).Proceeds k x := by
  refine wakeWalk_cases ⟨x, hx, hdistinct, .inl rfl⟩
    (fun ending _ _ => proceeds_endWalk hx hdistinct.pending ending)
    (fun _ missing texts _ _ => ?_) fun _ _ _ infos _ _ => ?_
  · have hadded := walks_addAll (missing.zip texts) w
    exact proceeds_resolveRound (hadded.symm ▸ hx) hdistinct.pending _ _
  · unfold finishRound
    refine proceeds_startRound ?_ (Dependencies.nodup_distinct _) env
    rw [getElem?_modifyWalk, if_pos rfl]
    exact congrArg _ hx

/-- **A job of a walk** lets it wait for what it waited for, or for what the store lacks. -/
theorem proceeds_performWalk (hx : w.walks[k]? = some x) (hdistinct : x.Distinct)
    (env : Environment) (job : WalkJob) : (w.performWalk env k job).Proceeds k x := by
  refine performWalk_cases hx job (fun _ => proceeds_endWalk hx hdistinct.pending _)
    (fun _ _ => proceeds_startRound hx hdistinct.pending env) (proceeds_wakeWalk hx hdistinct env)
    (fun _ => proceeds_modifyWalk (w := { w with loop := _ }) hx
      ⟨hdistinct.pending, hdistinct.awaited⟩ (.inl rfl)) fun place => ?_
  refine hearWalk_cases ⟨x, hx, hdistinct, .inl rfl⟩ fun waiters tally ending _ _ => ?_
  have hheard : (w.modifyWalk k fun y =>
      { y with phase := .resolving waiters (tally.hear place ending) }).Proceeds k x :=
    proceeds_modifyWalk hx (.of_awaited_nil hdistinct.pending rfl) (.inr nofun)
  exact ⟨hheard, hheard⟩

/-! ## What the store holds after one of its jobs -/

/-- Adding files under distinct names brings each of them one record. -/
theorem length_generations_addAll {files : List (String × String)}
    (hnodup : (files.map (·.1)).Nodup) (w : World) (name : String) :
    ((files.foldl (fun w (name, text) => w.add name text) w).store.generations name).length =
      (w.store.generations name).length + if name ∈ files.map (·.1) then 1 else 0 := by
  induction files generalizing w with
  | nil => simp
  | cons file rest ih =>
    obtain ⟨first, text⟩ := file
    obtain ⟨hfirst, hrest⟩ := List.nodup_cons.mp hnodup
    have hmem : name ∈ ((first, text) :: rest).map (·.1) ↔ name = first ∨ name ∈ rest.map (·.1) :=
      List.mem_cons
    rw [List.foldl_cons, ih hrest, store_add, Store.generations_add]
    by_cases h : name = first
    · subst h
      rw [if_neg hfirst, if_pos (hmem.mpr (.inl rfl)), if_pos rfl, List.length_append]
      rfl
    · simp only [hmem, h, false_or, if_false]

/-- A job of a walk leaves the files as they are, or adds those whose texts the walk waited for,
after which it waits for none. -/
def Adds (k : Nat) (x : Walk) (w w' : World) : Prop :=
  w.store.Kept w'.store ∨ ∃ texts y,
    ((x.awaited.zip texts).foldl (fun w (name, text) => w.add name text) w).store.Kept w'.store ∧
      w'.walks[k]? = some y ∧ y.awaited = []

theorem adds_wakeWalk (hx : w.walks[k]? = some x) (env : Environment) :
    w.Adds k x (w.wakeWalk env k x) := by
  refine wakeWalk_cases (.inl (.refl _)) (fun _ _ _ => .inl (.refl _))
    (fun _ missing texts hp _ => ?_)
    fun _ _ _ infos _ _ => .inl ((frames_kept k).finishRound _ hx _)
  have hawaited : x.awaited = missing := by simp [Walk.awaited, hp]
  obtain ⟨y, hy, -, hnil⟩ := awaited_resolveRound
    ((walks_addAll (missing.zip texts) w).symm ▸ hx) env x
  exact .inr ⟨texts, y, hawaited ▸ (frames_kept k).resolveRound _ _ _, hy, hnil⟩

theorem adds_performWalk (hx : w.walks[k]? = some x) (env : Environment) (job : WalkJob) :
    w.Adds k x (w.performWalk env k job) :=
  performWalk_cases hx job (fun _ => .inl (.refl _))
    (fun _ _ => .inl ((frames_kept k).startRound _ _ _)) (adds_wakeWalk hx env)
    (fun _ => .inl (.refl _)) fun place => .inl ((frames_kept k).hearWalk w x place)

/-- What one walk waits for changes: so does the number of those that wait for a name. -/
theorem awaiting_of_others {w' : World} {y : Walk}
    (hothers : ∀ j, k ≠ j → w'.walks[j]? = w.walks[j]?) (hx : w.walks[k]? = some x)
    (hy : w'.walks[k]? = some y) (name : String) :
    w'.awaiting name + (if name ∈ x.awaited then 1 else 0) =
      w.awaiting name + if name ∈ y.awaited then 1 else 0 := by
  have hset : w'.walks = w.walks.set k y := by
    refine List.ext_getElem? fun j => ?_
    rw [List.getElem?_set]
    split
    · rename_i hkj
      subst hkj
      rw [hy, if_pos (List.getElem?_eq_some_iff.mp hx).1]
    · rename_i hkj
      exact hothers j hkj
  obtain ⟨hlt, hget⟩ := List.getElem?_eq_some_iff.mp hx
  have hpos : name ∈ x.awaited → 0 < w.walks.countP fun x => name ∈ x.awaited := by
    intro h
    exact List.countP_pos_iff.mpr ⟨x, hget ▸ List.getElem_mem hlt, by simpa using h⟩
  have hcount := List.countP_set (p := fun x : Walk => decide (name ∈ x.awaited)) (a := y) hlt
  rw [awaiting, hset, hcount, hget, awaiting]
  simp only [decide_eq_true_eq]
  by_cases hmem : name ∈ x.awaited
  · have hone := hpos hmem
    simp only [hmem, if_true]
    omega
  · simp only [hmem, if_false]
    omega

/-! ## Every action -/

variable {envs : Nat → Environment} {a : Action}

/-- What a walk has before it, as far as the walks of a world are concerned. -/
def rounds (w : World) : List (List String × List String) :=
  w.walks.map fun x => (x.pending, x.awaited)

theorem rounds_modifyWalk (w : World) (k : Nat) {change : Walk → Walk}
    (h : ∀ x, (change x).pending = x.pending ∧ (change x).awaited = x.awaited) :
    (w.modifyWalk k change).rounds = w.rounds :=
  map_walks_modifyWalk w k fun x _ => Prod.ext (h x).1 (h x).2

theorem rounds_cancelFetches (w : World) (k : Nat) (x : Walk) :
    (w.cancelFetches k x).1.rounds = w.rounds := by
  unfold cancelFetches
  split
  · rfl
  · exact rounds_modifyWalk { w with loop := _ } k fun _ => ⟨rfl, rfl⟩

theorem rounds_cancelWalk (w : World) (k : Nat) : (w.cancelWalk k).rounds = w.rounds := by
  refine cancelWalk_induction (R := fun w w' => w'.rounds = w.rounds) (fun _ => rfl)
    (fun h h' => h'.trans h) (fun w id n => ?_) (fun w x _ => rounds_cancelFetches w k x)
    (fun w => ?_) w
  · exact congrArg (List.map _) (walks_giveUp w id n)
  · exact rounds_modifyWalk w k fun _ => ⟨rfl, rfl⟩

/-- Besides the jobs of walks, only the request for another walk changes what is before them. -/
theorem rounds_apply (envs : Nat → Environment) (w : World) (ha : a ≠ .tick) :
    (w.apply envs a).rounds = w.rounds ∨ ∃ entries,
      (w.apply envs a).rounds = w.rounds ++ [(Dependencies.distinct entries, [])] := by
  have hwalks : ∀ {w' : World}, w'.walks = w.walks → w'.rounds = w.rounds :=
    congrArg (List.map _)
  cases a with
  | tick => exact absurd rfl ha
  | add name text => exact .inl (hwalks (walks_add w name text))
  | setText name text => exact .inl (hwalks (walks_setText w name text))
  | register resolver address => exact .inl rfl
  | resolve resolver name =>
    exact .inl (hwalks (walks_resolve (envs resolver) w resolver name none))
  | resolveWithoutLoop resolver name =>
    exact .inl (hwalks (walks_resolveWithoutLoop (envs resolver) w name none))
  | giveUp file waiter => exact .inl (hwalks (walks_giveUp w file waiter))
  | walk resolver entries => exact .inr ⟨entries, List.map_append⟩
  | cancelWalk k => exact .inl (rounds_cancelWalk w k)
  | release gate => exact .inl rfl

/-- No walk of the world has a file repeated. -/
def Distinct (w : World) : Prop := ∀ (k : Nat) (x : Walk), w.walks[k]? = some x → x.Distinct

theorem distinct_iff_rounds : w.Distinct ↔ ∀ p ∈ w.rounds, p.1.Nodup ∧ p.2.Nodup := by
  constructor
  · intro h p hp
    obtain ⟨x, hx, rfl⟩ := List.mem_map.mp hp
    obtain ⟨k, hk⟩ := List.mem_iff_getElem?.mp hx
    exact ⟨(h k x hk).pending, (h k x hk).awaited⟩
  · intro h k x hx
    obtain ⟨hpending, hawaited⟩ := h _ (List.mem_map_of_mem (List.mem_of_getElem? hx))
    exact ⟨hpending, hawaited⟩

theorem awaiting_eq_rounds (w : World) (name : String) :
    w.awaiting name = w.rounds.countP fun p => name ∈ p.2 := by
  rw [rounds, List.countP_map]
  rfl

/-- What a tick may do, as far as walks and names are concerned. -/
theorem tick_cases_walk (envs : Nat → Environment) (w : World) :
    w.store.Kept (w.tick envs).store ∧ (w.tick envs).walks = w.walks ∨
      ∃ (w₀ : World) (k : Nat) (x : Walk) (job : WalkJob) (env : Environment),
        w₀.store = w.store ∧ w₀.walks = w.walks ∧ w.walks[k]? = some x ∧
        w.tick envs = w₀.performWalk env k job := by
  unfold tick
  split
  · exact .inl ⟨.refl _, rfl⟩
  · rename_i job loop _
    cases job with
    | file id job =>
      exact .inl ⟨store_performFile { w with loop } id job,
        walks_performFile { w with loop } id job⟩
    | walk k job =>
      cases hx : w.walks[k]? with
      | none => exact .inl (by simp [perform, performWalk, hx, Store.Kept.refl])
      | some x => exact .inr ⟨{ w with loop }, k, x, job, _, rfl, rfl, hx, rfl⟩

theorem distinct_apply (envs : Nat → Environment) (h : w.Distinct) (a : Action) :
    (w.apply envs a).Distinct := by
  by_cases ha : a = .tick
  · subst ha
    rcases tick_cases_walk envs w with ⟨-, hwalks⟩ | ⟨w₀, k, x, job, env, -, hwalks, hx, htick⟩
    · intro k x hx
      exact h k x (hwalks ▸ hx)
    · intro j y hy
      change (w.tick envs).walks[j]? = some y at hy
      rw [htick] at hy
      by_cases hkj : k = j
      · subst hkj
        obtain ⟨y', hy', hdistinct, -⟩ := proceeds_performWalk (hwalks ▸ hx) (h k x hx) env job
        obtain rfl := Option.some.inj (hy'.symm.trans hy)
        exact hdistinct
      · rw [getElem?_performWalk hkj, hwalks] at hy
        exact h j y hy
  · rw [distinct_iff_rounds] at h ⊢
    rcases rounds_apply envs w ha with hsame | ⟨entries, hmore⟩
    · rwa [hsame]
    · intro p hp
      rw [hmore] at hp
      rcases List.mem_append.mp hp with hp | hp
      · exact h p hp
      · obtain rfl := List.mem_singleton.mp hp
        exact ⟨Dependencies.nodup_distinct _, List.nodup_nil⟩

theorem distinct_initial (options : Options) (libName : String) (registries : Nat → Registry) :
    (initial options libName registries).Distinct :=
  fun k x hx => by simp [initial] at hx

theorem distinct_run (envs : Nat → Environment) (h : w.Distinct) (actions : List Action) :
    (w.run envs actions).Distinct := by
  induction actions generalizing w with
  | nil => exact h
  | cons a rest ih => exact ih (distinct_apply envs h a)

/-- The records of a name and the walks that wait for its text. -/
def addedOrAwaited (w : World) (name : String) : Nat :=
  (w.store.generations name).length + w.awaiting name

theorem addedOrAwaited_of_kept {w' : World} (hkept : w.store.Kept w'.store)
    (h : w'.awaiting name ≤ w.awaiting name) : w'.addedOrAwaited name ≤ w.addedOrAwaited name := by
  unfold addedOrAwaited
  rw [hkept.generations]
  omega

/-- A job of a walk does not raise the number of records of a name and of walks that wait for it,
unless the store does not know the name. -/
theorem addedOrAwaited_performWalk (hx : w.walks[k]? = some x) (hdistinct : x.Distinct)
    (env : Environment) (job : WalkJob)
    (hknown : (w.performWalk env k job).store.contains name = true) :
    (w.performWalk env k job).addedOrAwaited name ≤ w.addedOrAwaited name := by
  obtain ⟨y, hy, -, hproceeds⟩ := proceeds_performWalk hx hdistinct env job
  have hothers : ∀ j, k ≠ j → (w.performWalk env k job).walks[j]? = w.walks[j]? :=
    fun j hj => getElem?_performWalk hj env w job
  have hcount := awaiting_of_others hothers hx hy name
  rcases adds_performWalk hx env job with hkept | ⟨texts, y', hkept, hy', hnil⟩
  · refine addedOrAwaited_of_kept hkept ?_
    have hless : name ∈ y.awaited → name ∈ x.awaited := by
      intro hmem
      rcases hproceeds with hsame | hunknown
      · exact hsame ▸ hmem
      · rw [hunknown name hmem] at hknown
        cases hknown
    by_cases hmem : name ∈ y.awaited
    · rw [if_pos hmem, if_pos (hless hmem)] at hcount
      omega
    · rw [if_neg hmem] at hcount
      omega
  · obtain rfl := Option.some.inj (hy'.symm.trans hy)
    have hfiles := sublist_zip x.awaited texts
    have hadded := length_generations_addAll (hdistinct.awaited.sublist hfiles) w name
    rw [if_neg (by simp [hnil] : name ∉ y'.awaited)] at hcount
    unfold addedOrAwaited
    rw [hkept.generations, hadded]
    by_cases hmem : name ∈ (x.awaited.zip texts).map (·.1)
    · rw [if_pos hmem]
      rw [if_pos (hfiles.subset hmem)] at hcount
      omega
    · rw [if_neg hmem]
      omega

/-- **No action but the adding of the name** raises the number of records of a known name and of
walks that wait for it. -/
theorem addedOrAwaited_apply (hw : w.Tidy) (hdistinct : w.Distinct)
    (hadd : ∀ text, a ≠ .add name text) (hknown : (w.apply envs a).store.contains name = true) :
    (w.apply envs a).addedOrAwaited name ≤ w.addedOrAwaited name := by
  by_cases ha : a = .tick
  · subst ha
    rcases tick_cases_walk envs w with ⟨hkept, hwalks⟩ | ⟨w₀, k, x, job, env, hstore, hwalks, hx, h⟩
    · exact addedOrAwaited_of_kept hkept (by rw [awaiting, awaiting]; exact hwalks ▸ le_rfl)
    · change (w.tick envs).store.contains name = true at hknown
      change (w.tick envs).addedOrAwaited name ≤ _
      rw [h] at hknown ⊢
      have hless := addedOrAwaited_performWalk (hwalks ▸ hx) (hdistinct k x hx) env job hknown
      unfold addedOrAwaited awaiting at hless ⊢
      rwa [hstore, hwalks] at hless
  · have hawaiting : (w.apply envs a).awaiting name = w.awaiting name := by
      rw [awaiting_eq_rounds, awaiting_eq_rounds]
      rcases rounds_apply envs w ha with hsame | ⟨entries, hmore⟩
      · rw [hsame]
      · rw [hmore, List.countP_append]
        simp
    by_cases hother : ∃ other text, a = .add other text
    · obtain ⟨other, text, rfl⟩ := hother
      have hne : name ≠ other := fun e => hadd text (e ▸ rfl)
      change _ + (w.apply envs (.add other text)).awaiting name ≤ _
      rw [hawaiting]
      change ((w.add other text).store.generations name).length + _ ≤ _
      rw [store_add, Store.generations_add, if_neg hne]
      exact le_rfl
    · have hmoves : Moves envs a w (w.apply envs a) := apply_moves hw.walks ha
      have hkept := hmoves.kept ha fun other text e => hother ⟨other, text, e⟩
      exact addedOrAwaited_of_kept hkept hawaiting.le

/-! ## How often a text is read -/

end World

/-- The generation of the file whose text is read, if it is a file of the given name. -/
def Event.reads? (name : String) : Event → Option Nat
  | .extracting file _ => if file.name = name then some file.generation else none
  | _ => none

theorem Event.reads?_eq_some {name : String} {generation : Nat} {e : Event} :
    e.reads? name = some generation ↔ e.isReading ⟨name, generation⟩ = true := by
  cases e with
  | extracting file text =>
    obtain ⟨name', generation'⟩ := file
    simp [reads?, isReading]
  | _ => simp [reads?, isReading]

namespace World

/-- The files of a name whose texts were read, by their generations, in order. -/
def readings (w : World) (name : String) : List Nat := w.log.filterMap (Event.reads? name)

variable {envs : Nat → Environment} {actions : List Action} {w : World} {name : String}

theorem filter_isReading (log : List Event) (id : FileId) :
    log.filter (Event.isReading id) =
      (log.filter (Event.isOf id)).filter (Event.isReading id) := by
  rw [List.filter_filter]
  refine List.filter_congr fun e _ => ?_
  cases e <;> simp [Event.isReading, Event.isOf]

/-- The text of a file is read once, or never. -/
theorem read_at_most_once (options : Options) (libName : String) (registries : Nat → Registry)
    (hloop : ∀ resolver name, .resolveWithoutLoop resolver name ∉ actions)
    (hextract : ∀ k text, ∃ result, (envs k).extract text = .ok result) (id : FileId) :
    ((initial options libName registries).run envs actions).log.filter (Event.isReading id) = [] ∨
      ∃ text, ((initial options libName registries).run envs actions).log.filter
        (Event.isReading id) = [.extracting id text] := by
  have htidy := tidy_run envs (tidy_initial options libName registries) actions
  rw [filter_isReading]
  cases hl : ((initial options libName registries).run envs actions).lane? id with
  | none =>
    rw [(htidy.silent id (lane?_eq_none.mp hl)).2]
    exact .inl rfl
  | some l =>
    rw [← (lane?_eq_some.mp hl).2.2]
    rcases first_request options libName registries actions hloop hextract hl with
      huntouched | ⟨before, a, after, resolver, found, l₁, rfl, -, hl₁, hjust, -⟩
    · rw [huntouched.2]
      exact .inl rfl
    · obtain ⟨l', hl', honce⟩ := read_once options libName registries hl₁ hjust after
      rw [List.append_assoc, List.singleton_append, hl] at hl'
      obtain rfl := Option.some.inj hl'
      exact .inr ⟨_, honce.2.2⟩

/-- **At most one reading for each record** of a name. -/
theorem readings_le (options : Options) (libName : String) (registries : Nat → Registry)
    (hloop : ∀ resolver name, .resolveWithoutLoop resolver name ∉ actions)
    (hextract : ∀ k text, ∃ result, (envs k).extract text = .ok result) (name : String) :
    (((initial options libName registries).run envs actions).readings name).length ≤
      (((initial options libName registries).run envs actions).store.generations name).length := by
  have honce := read_at_most_once options libName registries hloop hextract
  have htidy := tidy_run envs (tidy_initial options libName registries) actions
  generalize (initial options libName registries).run envs actions = w at honce htidy ⊢
  have hnodup : (w.readings name).Nodup := by
    refine List.nodup_iff_count_le_one.mpr fun generation => ?_
    have hcount : (w.readings name).count generation =
        (w.log.filter (Event.isReading ⟨name, generation⟩)).length := by
      rw [readings, List.count_filterMap, ← List.countP_eq_length_filter]
      refine List.countP_congr fun e _ => ?_
      rw [beq_iff_eq, Event.reads?_eq_some]
    rcases honce ⟨name, generation⟩ with h | ⟨text, h⟩ <;> simp [hcount, h]
  have hbound : ∀ generation ∈ w.readings name,
      generation ∈ List.range (w.store.generations name).length := by
    intro generation hmem
    obtain ⟨e, he, hreads⟩ := List.mem_filterMap.mp hmem
    have hreading := Event.reads?_eq_some.mp hreads
    rw [List.mem_range]
    by_contra hge
    have hnone : w.store.record? ⟨name, generation⟩ = none := by
      simpa [Store.record?] using hge
    have hquiet := filter_isReading w.log ⟨name, generation⟩
    rw [(htidy.silent _ hnone).2] at hquiet
    exact absurd hreading (by simpa using List.filter_eq_nil_iff.mp hquiet e he)
  simpa using (hnodup.subperm hbound).length_le

/-! ## Runs -/

theorem length_walks_apply (envs : Nat → Environment) (w : World) (a : Action) :
    w.walks.length ≤ (w.apply envs a).walks.length := by
  by_cases ha : a = .tick
  · subst ha
    change _ ≤ (w.tick envs).walks.length
    rcases tick_cases_walk envs w with ⟨-, hwalks⟩ | ⟨w₀, k, x, job, env, -, hwalks, -, htick⟩
    · rw [hwalks]
    · have hlength := congrArg List.length (resolvers_performWalk env w₀ k job)
      rw [resolvers, resolvers, List.length_map, List.length_map] at hlength
      rw [htick, hlength, hwalks]
  · have hlength : ∀ w' : World, w'.walks.length = w'.rounds.length := fun w' => by simp [rounds]
    rw [hlength, hlength]
    rcases rounds_apply envs w ha with hsame | ⟨entries, hmore⟩
    · rw [hsame]
    · simp [hmore]

theorem length_walks_run (envs : Nat → Environment) (w : World) (actions : List Action) :
    w.walks.length ≤ (w.run envs actions).walks.length := by
  induction actions generalizing w with
  | nil => exact le_rfl
  | cons a rest ih => exact (length_walks_apply envs w a).trans (ih (w.apply envs a))

/-- What is known stays known. -/
theorem contains_run (envs : Nat → Environment) (hw : w.Tidy) (actions : List Action)
    (hname : w.store.contains name = true) : (w.run envs actions).store.contains name = true := by
  obtain ⟨id, hid⟩ := Store.current?_of_contains hname
  obtain ⟨r, hr⟩ := hw.inhabited.record? hid
  obtain ⟨r', hr', -⟩ := grows_run envs hw actions id r hr
  exact Store.current?_name hid ▸ Store.contains_of_record? hr'

/-- No record is lost. -/
theorem length_generations_run (envs : Nat → Environment) (hw : w.Tidy) (actions : List Action)
    (name : String) : (w.store.generations name).length ≤
      ((w.run envs actions).store.generations name).length := by
  by_contra hnot
  have hless := Nat.lt_of_not_le hnot
  obtain ⟨r, hr⟩ : ∃ r, w.store.record?
      ⟨name, ((w.run envs actions).store.generations name).length⟩ = some r :=
    ⟨_, List.getElem?_eq_getElem hless⟩
  obtain ⟨r', hr', -⟩ := grows_run envs hw actions _ r hr
  simp [Store.record?] at hr'

/-- The records of a known name, and the walks that wait for its text, become no more. -/
theorem addedOrAwaited_run (envs : Nat → Environment) (hw : w.Tidy) (hdistinct : w.Distinct)
    (hknown : w.store.contains name = true) (later : List Action)
    (hadd : ∀ text, .add name text ∉ later) :
    (w.run envs later).addedOrAwaited name ≤ w.addedOrAwaited name := by
  induction later using List.reverseRec with
  | nil => exact le_rfl
  | append_singleton later a ih =>
    have hstays := contains_run envs hw (later ++ [a]) hknown
    rw [run_concat] at hstays ⊢
    refine (addedOrAwaited_apply (tidy_run envs hw later) (distinct_run envs hdistinct later)
      (fun text e => hadd text (by simp [e])) hstays).trans (ih fun text hmem => ?_)
    exact hadd text (List.mem_append_left _ hmem)

/-- The records of a name that is not known at first are no more than the walks that wait for its
text at one time. -/
theorem length_generations_le (hw : w.Tidy) (hdistinct : w.Distinct)
    (hunknown : w.store.contains name = false) (later : List Action)
    (hadd : ∀ text, .add name text ∉ later) {bound : Nat}
    (hbound : ∀ before after, later = before ++ after →
      (w.run envs before).awaiting name ≤ bound) :
    ((w.run envs later).store.generations name).length ≤ bound := by
  have hsum : (w.run envs later).store.contains name = true →
      (w.run envs later).addedOrAwaited name ≤ bound := by
    induction later using List.reverseRec with
    | nil =>
      intro hknown
      rw [show w.run envs [] = w from rfl, hunknown] at hknown
      cases hknown
    | append_singleton later a ih =>
      intro hknown
      rw [run_concat] at hknown ⊢
      have hstep := addedOrAwaited_apply (tidy_run envs hw later)
        (distinct_run envs hdistinct later) (fun text e => hadd text (by simp [e])) hknown
      refine hstep.trans ?_
      -- What is not known yet has no record, and is only waited for.
      cases hbefore : (w.run envs later).store.contains name with
      | true =>
        exact ih (fun text hmem => hadd text (List.mem_append_left _ hmem))
          (fun before after hsplit => hbound before (after ++ [a])
            (by rw [hsplit, List.append_assoc])) hbefore
      | false =>
        rw [addedOrAwaited, Store.generations_of_not_contains hbefore]
        simpa using hbound later [a] rfl
  cases hknown : (w.run envs later).store.contains name with
  | true => exact (Nat.le_add_right _ _).trans (hsum hknown)
  | false => simp [Store.generations_of_not_contains hknown]

/-- **How often walks that overlap add a name.** In any world of any run, let actions follow that do
not add the name from outside, with any number of walks among them.

If the store knows the name and no walk waits for its text, the record that is found under it is not
replaced. If it does not know the name, the name gets at most as many records as there are walks,
and no more than there are walks that wait for its text at one time: as long as no two of them do
so together, at most one, which is not replaced. Nothing is read more often than there are records,
so the dependencies of a file are then computed at most once. -/
theorem overlapping_walks_add (envs : Nat → Environment) (options : Options) (libName : String)
    (registries : Nat → Registry) (prior : List Action) {w : World}
    (hw : w = (initial options libName registries).run envs prior) (name : String)
    (later : List Action) (hadd : ∀ text, .add name text ∉ later) :
    (w.store.contains name = true → w.awaiting name = 0 →
      ((w.run envs later).store.generations name).length = (w.store.generations name).length ∧
        (w.run envs later).store.current? name = w.store.current? name) ∧
    (w.store.contains name = false →
      ((w.run envs later).store.generations name).length ≤ (w.run envs later).walks.length ∧
      ∀ bound, (∀ before after, later = before ++ after →
          (w.run envs before).awaiting name ≤ bound) →
        ((w.run envs later).store.generations name).length ≤ bound) ∧
    ((∀ resolver other, .resolveWithoutLoop resolver other ∉ prior ++ later) →
      (∀ k text, ∃ result, (envs k).extract text = .ok result) →
      ((w.run envs later).readings name).length ≤
        ((w.run envs later).store.generations name).length) := by
  have htidy : w.Tidy := hw ▸ tidy_run envs (tidy_initial options libName registries) prior
  have hdistinct : w.Distinct :=
    hw ▸ distinct_run envs (distinct_initial options libName registries) prior
  refine ⟨fun hknown hnone => ?_, fun hunknown => ⟨?_, fun bound hbound => ?_⟩,
    fun hloop hextract => ?_⟩
  · have hmost := addedOrAwaited_run envs htidy hdistinct hknown later hadd
    have hleast := length_generations_run envs htidy later name
    unfold addedOrAwaited at hmost
    have hsame : ((w.run envs later).store.generations name).length =
        (w.store.generations name).length := by omega
    refine ⟨hsame, ?_⟩
    simp [Store.current?, hknown, contains_run envs htidy later hknown, hsame]
  · refine length_generations_le htidy hdistinct hunknown later hadd fun before after hsplit => ?_
    rw [hsplit, run_append]
    exact (List.countP_le_length).trans (length_walks_run envs _ after)
  · exact length_generations_le htidy hdistinct hunknown later hadd hbound
  · have hle := readings_le options libName registries hloop hextract name
    rwa [run_append, ← hw] at hle

/-- Every file imports a style sheet. Texts come once gate `a` is open, addresses once gate `b`
is. -/
def styleSheets : Nat → Environment := fun _ =>
  { address := fun _ _ _ => { gates := ["b"], outcome := .returned "/proj/site.css" }
    descriptor := fun _ _ => { outcome := .returned ⟨[]⟩ }
    source := fun _ _ => { gates := ["a"], outcome := .returned "import './site.css';" }
    extract := fun _ => .ok ({ imports := ["./site.css"] }, []) }

/-- A second walk of one resolver begins when the first has added the file and waits for its
resolution. -/
def apartRun : List Action :=
  [.walk 0 ["/proj/index.ts"], .tick, .tick, .release "a"] ++ List.replicate 5 .tick ++
    [.walk 0 ["/proj/index.ts"], .tick, .release "b"] ++ List.replicate 9 .tick

theorem overlapping_walks_add_apart : ∃ w,
    w = (initial {} defaultLibName fun _ => {}).run styleSheets apartRun ∧
    w.walks.map Walk.outcome = List.replicate 2 (some (.returned ["/proj/index.ts"])) ∧
    (w.store.generations "/proj/index.ts").length ≤ 1 ∧
    (w.readings "/proj/index.ts").length ≤ 1 := by
  have hbound : ∀ n ∈ List.range (apartRun.length + 1),
      ((initial {} defaultLibName fun _ => {}).run styleSheets (apartRun.take n)).awaiting
        "/proj/index.ts" ≤ 1 := by decide +kernel
  obtain ⟨-, hunknown, hread⟩ := overlapping_walks_add styleSheets {} defaultLibName (fun _ => {})
    [] rfl "/proj/index.ts" apartRun (by simp [apartRun])
  have hone := (hunknown rfl).2 1 fun before after hsplit => by
    have hbefore := hbound before.length
      (List.mem_range.mpr (by rw [hsplit, List.length_append]; omega))
    rwa [hsplit, List.take_left] at hbefore
  refine ⟨_, rfl, by decide +kernel, hone, ?_⟩
  exact (hread (by simp [apartRun]) fun _ _ => ⟨_, rfl⟩).trans hone

/-- Two walks of one resolver wait for the text of the same file. -/
def togetherRun : List Action :=
  [.walk 0 ["/proj/index.ts"], .walk 0 ["/proj/index.ts"]] ++ List.replicate 4 .tick ++
    [.release "a"] ++ List.replicate 12 .tick ++ [.release "b"] ++ List.replicate 14 .tick

theorem overlapping_walks_replace : ∃ w,
    w = (initial {} defaultLibName fun _ => {}).run styleSheets togetherRun ∧
    (∀ name text, .add name text ∉ togetherRun) ∧
    w.walks.map Walk.outcome = List.replicate 2 (some (.returned ["/proj/index.ts"])) ∧
    (w.store.generations "/proj/index.ts").map (·.dependencies) =
      List.replicate 2 (some ⟨[("./site.css", "/proj/site.css")], []⟩) ∧
    w.readings "/proj/index.ts" = [0, 1] ∧
    .notice (.replacing "/proj/index.ts") ∈ w.log := by
  refine ⟨_, rfl, by simp [togetherRun], ?_, ?_, ?_, ?_⟩ <;> decide +kernel

end World

end DepGraph
