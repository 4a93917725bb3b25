import Mathlib.Data.Finset.Card
import Mathlib.Data.Finset.Dedup
import DepGraph.Proofs.Discovery
import DepGraph.Proofs.Rounds

/-!
# How far a walk gets, and what it asks for

A walk has no test of its own for what it has visited. Every round but the first is made of names
that were unknown when the walk was requested and that it comes to for the first time, and it asks
for the texts of such names only, of each once.

* `Walk.begun` — the number of rounds that a walk has begun.
* `Walk.Advances` — the rounds of a walk so far; `Walk.Advances.begun_le` — there are no more of
  them than names to come to.
* `Walk.Seeks`, `Walk.Asks` — what a walk has asked for; `Walk.Seeks.length_le`.
* `World.Frugal` — both hold of a walk of a world.
* `World.frugal_performWalk`, `World.frugal_apply` — every job of the walk, and every action, keeps
  it so.
-/

set_option autoImplicit false

namespace DepGraph

/-- The number of rounds that a walk has begun. -/
def Walk.begun (x : Walk) : Nat :=
  match x.phase with
  | .starting => 0
  | _ => if x.pending.isEmpty then x.round else x.round + 1

/-- A member that nobody cancelled has recorded what its script begins with. -/
theorem Member.OnCourse.isPrefix {ε φ α : Type} {s : Script ε φ α} {events : List ε}
    {m : Member ε φ α} (h : m.OnCourse s events) : events <+: s.events := by
  have hreaches : ∀ {rest}, s.Reaches events rest → events <+: s.events := fun hr => by
    rw [hr.events_eq]
    exact List.prefix_append _ _
  cases m with
  | active farewell rest => exact hreaches h.1
  | stopped farewell => exact h.elim
  | ended e => exact hreaches h

namespace Walk

variable {env : Environment} {k : Nat} {origin s s' : Store}
  {known missing names since : List String} {x y : Walk}

/-! ## Rounds -/

/-- Every round of a walk but the first is made of names that are unknown to `origin` and that the
walk comes to for the first time. -/
structure Advances (origin : Store) (x : Walk) : Prop where
  apart : ∀ name ∈ x.pending, name ∉ x.visited
  unknown : 0 < x.round → ∀ name ∈ x.pending, origin.contains name = false
  rounds : x.round ≤ (x.visited.filter fun name => !origin.contains name).length + 1

theorem Advances.congr (h : x.Advances origin) (hv : y.visited = x.visited)
    (hp : y.pending = x.pending) (hr : y.round = x.round) : y.Advances origin := by
  refine ⟨?_, ?_, ?_⟩ <;> simp only [hv, hp, hr]
  exacts [h.apart, h.unknown, h.rounds]

theorem Advances.nodup (h : x.Advances origin) (honce : x.visited.Nodup ∧ x.pending.Nodup) :
    (x.visited ++ x.pending).Nodup :=
  List.nodup_append.mpr ⟨honce.1, honce.2, fun _ hv _ hp heq => h.apart _ hp (heq ▸ hv)⟩

/-- All names of a round but the first count. -/
theorem Advances.filter_pending (h : x.Advances origin) (hround : 0 < x.round) :
    x.pending.filter (fun name => !origin.contains name) = x.pending :=
  List.filter_eq_self.mpr fun name hname => by rw [h.unknown hround name hname, Bool.not_false]

/-- **The next round** is made of new names. -/
theorem Advances.next (h : x.Advances origin) (honce : x.visited.Nodup ∧ x.pending.Nodup)
    (hpending : x.pending ≠ [])
    (hnew : ∀ name ∈ names, (name ∉ x.visited ∧ name ∉ x.pending) ∧ origin.contains name = false)
    (hv : y.visited = Dependencies.distinct (x.visited ++ x.pending)) (hp : y.pending = names)
    (hr : y.round = x.round + 1) : y.Advances origin := by
  rw [Dependencies.distinct_eq, Dependencies.eraseDups_of_nodup (h.nodup honce)] at hv
  refine ⟨fun name hname => ?_, fun _ name hname => ?_, ?_⟩
  · rw [hv, List.mem_append, not_or]
    exact (hnew name (hp ▸ hname)).1
  · exact (hnew name (hp ▸ hname)).2
  · have hrounds := h.rounds
    rw [hr, hv, List.filter_append, List.length_append]
    rcases Nat.eq_zero_or_pos x.round with hzero | hround
    · omega
    · rw [h.filter_pending hround]
      have hsome := List.length_pos_iff.mpr hpending
      omega

/-- Names that are unknown to `origin`, each once, are no more than there are of them. -/
theorem length_le_card (origin : Store) (U : Finset String) (honce : names.Nodup)
    (hU : ∀ name ∈ names, name ∈ U ∧ origin.contains name = false) :
    names.length ≤ (U.filter fun name => origin.contains name = false).card := by
  rw [← List.toFinset_card_of_nodup honce]
  exact Finset.card_le_card fun name hname =>
    Finset.mem_filter.mpr (hU name (List.mem_toFinset.mp hname))

section Bound

variable {U : Finset String} (h : x.Advances origin)
  (honce : x.visited.Nodup ∧ x.pending.Nodup)
  (hU : ∀ name, name ∈ x.visited ∨ name ∈ x.pending → name ∈ U)
include h honce hU

theorem Advances.round_le :
    x.round ≤ 1 + (U.filter fun name => origin.contains name = false).card := by
  have hvisited := length_le_card origin U
    (honce.1.filter fun name => !origin.contains name) fun name hname => by
      obtain ⟨hmem, hunknown⟩ := List.mem_filter.mp hname
      exact ⟨hU name (.inl hmem), by simpa using hunknown⟩
  have hrounds := h.rounds
  omega

/-- **There are no more rounds** than unknown names, and one. -/
theorem Advances.begun_le :
    x.begun ≤ 1 + (U.filter fun name => origin.contains name = false).card := by
  have hround := h.round_le honce hU
  unfold begun
  split
  · exact Nat.zero_le _
  · split
    · exact hround
    · rename_i hpending
      rcases Nat.eq_zero_or_pos x.round with hzero | hpos
      · omega
      · -- The names of the round are new, so that there is one more than was visited.
        have hnew := length_le_card origin U
          ((h.nodup honce).filter fun name => !origin.contains name) fun name hname => by
            obtain ⟨hmem, hunknown⟩ := List.mem_filter.mp hname
            exact ⟨hU name (List.mem_append.mp hmem), by simpa using hunknown⟩
        rw [List.filter_append, List.length_append, h.filter_pending hpos] at hnew
        have hsome := List.length_pos_iff.mpr fun hnil => hpending (List.isEmpty_iff.mpr hnil)
        have hrounds := h.rounds
        omega

end Bound

/-! ## Requests -/

/-- Names that a walk has come to, each once, and that are unknown to `origin`. -/
structure Seeks (origin : Store) (names : List String) (x : Walk) : Prop where
  once : names.Nodup
  reached : ∀ name ∈ names, name ∈ x.visited ∨ name ∈ x.pending
  unknown : ∀ name ∈ names, origin.contains name = false

theorem Seeks.length_le {U : Finset String} (h : x.Seeks origin names)
    (hU : ∀ name, name ∈ x.visited ∨ name ∈ x.pending → name ∈ U) :
    names.length ≤ (U.filter fun name => origin.contains name = false).card :=
  length_le_card origin U h.once fun name hname =>
    ⟨hU name (h.reached name hname), h.unknown name hname⟩

theorem Seeks.mono (h : x.Seeks origin names)
    (hxy : ∀ name, name ∈ x.visited ∨ name ∈ x.pending → name ∈ y.visited ∨ name ∈ y.pending) :
    y.Seeks origin names :=
  ⟨h.once, fun name hname => hxy name (h.reached name hname), h.unknown⟩

theorem Seeks.congr (h : x.Seeks origin names) (hv : y.visited = x.visited)
    (hp : y.pending = x.pending) : y.Seeks origin names :=
  h.mono fun name => by rw [hv, hp]; exact id

/-- A walk that waits for texts has asked for none of them twice. -/
theorem Awaits.count_le (h : x.Awaits env k known missing since) (name : String) :
    since.count name ≤ (known ++ missing).count name := by
  obtain ⟨events, halong, hcount⟩ := h.requests
  rw [List.count_append]
  by_cases hname : name ∈ missing
  · obtain ⟨i, hi⟩ := List.mem_iff_getElem?.mp hname
    have hscript : (World.fetchScripts env k x.round missing)[i]? =
        some (World.fetchScript env ⟨k, x.round, i⟩ name) := by
      rw [World.getElem?_fetchScripts, hi, Option.map_some]
    obtain ⟨m, -, hcourse⟩ := halong.each i _ hscript
    have hone := (hcourse.isPrefix.sublist.filterMap Event.fetch?).count_le name
    rw [World.events_fetchScript, ← hcount i name hi] at hone
    have hmissing := List.count_pos_iff.mpr hname
    refine hone.trans ?_
    simp only [List.filterMap_cons, Event.fetch?, List.filterMap_nil, List.count_singleton_self]
    omega
  · rw [h.others name hname]
    exact Nat.le_add_right _ _

/-- The texts of all names that were asked for have come, and every request has ended. -/
structure Supplied (origin s : Store) (since : List String) (x : Walk) : Prop where
  seeks : x.Seeks origin since
  held : ∀ name ∈ since, s.contains name = true
  settled : x.fetches.Settled

theorem Supplied.congr (h : x.Supplied origin s since) (hv : y.visited = x.visited)
    (hp : y.pending = x.pending) (hf : y.fetches = x.fetches)
    (hs : ∀ name, s.contains name = true → s'.contains name = true) :
    y.Supplied origin s' since :=
  ⟨h.seeks.congr hv hp, fun name hname => hs name (h.held name hname), hf ▸ h.settled⟩

/-- What walk `k` has asked for since the store was `origin`. -/
inductive Asks (env : Environment) (k : Nat) (origin s : Store) (since : List String) (x : Walk) :
    Prop
  /-- It waits for texts, or did when it failed. -/
  | awaiting {known missing : List String}
    (phase : x.phase = .fetching missing ∨ x.phase = .finished)
    (seeks : x.Seeks origin (known ++ missing)) (held : ∀ name ∈ known, s.contains name = true)
    (awaits : x.Awaits env k known missing since)
  /-- It has what it has asked for. -/
  | supplied (phase : ∀ missing, x.phase ≠ .fetching missing)
    (supplied : x.Supplied origin s since)

/-- **A walk asks only for what is unknown**, and for nothing twice. -/
theorem Asks.seeks (h : x.Asks env k origin s since) : x.Seeks origin since := by
  cases h with
  | supplied _ supplied => exact supplied.seeks
  | awaiting _ seeks _ awaits =>
    have hcount := awaits.count_le
    have hmem : ∀ name ∈ since, name ∈ _ := fun name hname =>
      List.count_pos_iff.mp ((List.count_pos_iff.mpr hname).trans_le (hcount name))
    refine ⟨List.nodup_iff_count_le_one.mpr fun name => ?_,
      fun name hname => seeks.reached name (hmem name hname),
      fun name hname => seeks.unknown name (hmem name hname)⟩
    exact (hcount name).trans (List.nodup_iff_count_le_one.mp seeks.once name)

/-- What was asked for stays asked for while files are added. -/
theorem Asks.later (h : x.Asks env k origin s since)
    (hs : ∀ name, s.contains name = true → s'.contains name = true) :
    x.Asks env k origin s' since := by
  cases h with
  | awaiting phase seeks held awaits =>
    exact .awaiting phase seeks (fun name hname => hs name (held name hname)) awaits
  | supplied phase supplied =>
    exact .supplied phase (supplied.congr rfl rfl rfl hs)

/-- Outside a round of requests the walk has what it has asked for. -/
theorem Asks.supplied_of (h : x.Asks env k origin s since)
    (hfetching : ∀ missing, x.phase ≠ .fetching missing) (hfinished : x.phase ≠ .finished) :
    x.Supplied origin s since := by
  cases h with
  | supplied _ supplied => exact supplied
  | awaiting phase _ _ _ =>
    rcases phase with hp | hp
    · exact absurd hp (hfetching _)
    · exact absurd hp hfinished

/-- The walk ends. -/
theorem Asks.end (h : x.Asks env k origin s since)
    (ending : Ending WalkFault (List String)) :
    ({ x with phase := .finished, outcome := some ending } : Walk).Asks env k origin s since := by
  cases h with
  | awaiting _ seeks held awaits =>
    exact .awaiting (.inr rfl) (seeks.congr rfl rfl) held
      ⟨awaits.requests, awaits.others, awaits.honest, awaits.heard⟩
  | supplied _ supplied =>
    exact .supplied nofun (supplied.congr rfl rfl rfl fun _ => id)

/-- **When the texts have come**, the walk has what it has asked for, once the files are added. -/
theorem Awaits.supplied (h : x.Awaits env k known missing since)
    (hseeks : x.Seeks origin (known ++ missing)) {texts : List String}
    (hv : x.fetches.tally.verdict = some (.returned texts))
    (hs : ∀ name ∈ known ++ missing, s.contains name = true) : x.Supplied origin s since := by
  obtain ⟨-, -, hsettled, hperm⟩ := h.returned hseeks.once hv
  exact ⟨⟨hperm.nodup_iff.mpr hseeks.once,
    fun name hname => hseeks.reached name (hperm.subset hname),
    fun name hname => hseeks.unknown name (hperm.subset hname)⟩,
    fun name hname => hs name (hperm.subset hname), hsettled⟩

/-- While a walk waits for files, the store knows the names of the round. -/
theorem Attends.contains (h : x.Attends s) {waiters : List (FileId × Nat)}
    {tally : Tally Fault Dependencies} (hp : x.phase = .resolving waiters tally) :
    ∀ name ∈ x.pending, s.contains name = true := by
  rw [Attends, hp] at h
  obtain ⟨hnames, hcurrent, -⟩ := h
  intro name hname
  rw [← hnames] at hname
  obtain ⟨p, hmem, rfl⟩ := List.mem_map.mp hname
  exact Store.contains_of_current? (hcurrent p hmem)

end Walk

namespace World

variable {env : Environment} {envs : Nat → Environment} {w w' : World} {k resolver : Nat} {x : Walk}
  {origin : Store} {entries earlier since : List String} {a : Action}

/-! ## What others ask for -/

theorem asked_note (w : World) (n : Notice) : (w.note n).asked = w.asked := by
  rw [note, asked_record]
  simp

theorem frames_asked (k : Nat) : Frames k fun w w' => w'.asked = w.asked where
  refl _ := rfl
  trans h h' := h'.trans h
  ask env resolver w name _ := (still_resolve env w resolver name _).asked
  note := asked_note
  modifyWalk _ _ _ := rfl
  post _ _ := rfl
  fetch _ _ _ := rfl

/-- A walk none of whose requests is under way asks for nothing at once. -/
theorem asked_performWalk (hsettled : ∀ y, w.walks[k]? = some y → y.fetches.Settled)
    (env : Environment) (job : WalkJob) : (w.performWalk env k job).asked = w.asked := by
  refine (frames_asked k).performWalk env w job
    (fun _ _ _ _ w name text => asked_addAll [(name, text)] w) fun y hy job w' => ?_
  obtain ⟨hnone, -⟩ := (hsettled y hy).perform (fun j => Job.walk k (.fetch j)) w.loop job
  rw [asked_record, hnone, List.filterMap_nil, List.append_nil]

theorem asked_giveUp (w : World) (id : FileId) (waiter : Nat) :
    (w.giveUp id waiter).asked = w.asked := by
  unfold giveUp
  split
  · rfl
  · exact (still_alert _ _).asked

theorem asked_cancelFetches (w : World) (k : Nat) (x : Walk) :
    (w.cancelFetches k x).1.asked = w.asked := by
  unfold cancelFetches
  split <;> rfl

theorem asked_cancelWalk (w : World) (k : Nat) : (w.cancelWalk k).asked = w.asked :=
  cancelWalk_induction (R := fun w w' => w'.asked = w.asked) (fun _ => rfl)
    (fun h h' => h'.trans h) asked_giveUp (fun w x _ => asked_cancelFetches w k x)
    (fun _ => rfl) w

/-- **Nobody else asks for texts** while all requests of other walks have ended. -/
theorem asked_apply (hquiet : ∀ id r, w.store.record? id = some r → r.Logs fun e => e.fetch? = none)
    (hsettled : ∀ j y, j ≠ k → w.walks[j]? = some y → y.fetches.Settled)
    (htick : a = .tick → ∀ job loop, w.loop.next? ≠ some (.walk k job, loop)) :
    (w.apply envs a).asked = w.asked := by
  cases a with
  | tick =>
    change (w.tick envs).asked = w.asked
    unfold tick
    cases hnext : w.loop.next? with
    | none => rfl
    | some p =>
      obtain ⟨job, loop⟩ := p
      cases job with
      | file id job => exact (still_performFile (w := { w with loop }) (hquiet id) job).asked
      | walk j job =>
        have hjk : j ≠ k := by
          rintro rfl
          exact htick rfl job loop hnext
        exact asked_performWalk (w := { w with loop }) (hsettled j · hjk) _ job
  | add name text => exact asked_addAll [(name, text)] w
  | setText name text =>
    change (w.setText name text).asked = w.asked
    unfold setText
    split <;> rfl
  | register resolver address => exact asked_note { w with registries := _ } _
  | resolve resolver name => exact (still_resolve (envs resolver) w resolver name none).asked
  | resolveWithoutLoop resolver name =>
    change (w.resolveWithoutLoop (envs resolver) name none).1.asked = w.asked
    rcases resolveWithoutLoop_spec (envs resolver) w name none with
      ⟨_, h⟩ | ⟨id, r, _, _, ⟨_, _, _, h⟩ | ⟨_, _, notices, _, h⟩ | ⟨_, h⟩⟩ <;> rw [h]
    · exact (still_read w id r.text).asked
    · exact ((still_read w id r.text).trans (still_record _ (by simp))).asked
    · rfl
  | giveUp file waiter => exact asked_giveUp w file waiter
  | walk resolver entries => rfl
  | cancelWalk j => exact asked_cancelWalk w j
  | release gate => rfl

/-! ## A walk of a world -/

/-- How far walk `k` has come that was requested when the store was `origin` and the texts of
`earlier` had been asked for; the texts of `since` were asked for since. -/
structure Progress (origin : Store) (earlier : List String) (resolver k : Nat) (w : World)
    (since : List String) (x : Walk) : Prop where
  here : w.walks[k]? = some x
  resolver : x.resolver = resolver
  asked : w.asked = earlier ++ since
  advances : x.Advances origin

/-- Walk `k` has come to new names in every round, and asks for them only. -/
def Frugal (env : Environment) (origin : Store) (earlier : List String) (resolver k : Nat)
    (w : World) : Prop :=
  ∃ since x, Progress origin earlier resolver k w since x ∧ x.Asks env k origin w.store since ∧
    (x.pending = [] → x.phase = .starting ∨ x.phase = .finished)

theorem Progress.still (h : Progress origin earlier resolver k w since x) (hs : Still w w') :
    Progress origin earlier resolver k w' since x :=
  ⟨hs.walks ▸ h.here, h.resolver, hs.asked.trans h.asked, h.advances⟩

/-- A change of the walk that leaves it as far as it is. -/
theorem Progress.modifyWalk (h : Progress origin earlier resolver k w since x)
    (change : Walk → Walk)
    (hsame : (change x).resolver = x.resolver ∧ (change x).visited = x.visited ∧
      (change x).pending = x.pending ∧ (change x).round = x.round) :
    Progress origin earlier resolver k (w.modifyWalk k change) since (change x) := by
  obtain ⟨hresolver, hvisited, hpending, hround⟩ := hsame
  exact ⟨getElem?_modifyWalk_self h.here change, hresolver.trans h.resolver, h.asked,
    h.advances.congr hvisited hpending hround⟩

/-- What is due does not matter. -/
theorem Frugal.loop (h : w.Frugal env origin earlier resolver k) (loop : Loop Job) :
    Frugal env origin earlier resolver k { w with loop } := by
  obtain ⟨since, x, hprogress, hrest⟩ := h
  exact ⟨since, x, ⟨hprogress.here, hprogress.resolver, hprogress.asked, hprogress.advances⟩, hrest⟩

/-- Nothing was asked for when a walk is requested. -/
theorem frugal_walk (w : World) (resolver : Nat) (entries : List String) :
    (w.walk resolver entries).1.Frugal env w.store w.asked resolver w.walks.length := by
  refine ⟨[], { resolver, pending := Dependencies.distinct entries }, ⟨List.getElem?_concat_length,
    rfl, (List.append_nil _).symm, nofun, nofun, Nat.zero_le _⟩, .supplied nofun ⟨⟨List.nodup_nil,
      nofun, nofun⟩, nofun, ?_⟩, fun _ => .inl rfl⟩
  intro m hm
  cases hm

/-! ## Rounds -/

theorem frugal_endWalk (h : Progress origin earlier resolver k w since x)
    (ha : x.Asks env k origin w.store since) (ending : Ending WalkFault (List String)) :
    (w.endWalk k ending).Frugal env origin earlier resolver k :=
  ⟨since, _, h.modifyWalk _ ⟨rfl, rfl, rfl, rfl⟩, ha.end ending, fun _ => .inr rfl⟩

theorem frugal_resolveRound (h : Progress origin earlier resolver k w since x)
    (hs : x.Supplied origin w.store since) (hpending : x.pending ≠ []) :
    (w.resolveRound env k x).Frugal env origin earlier resolver k := by
  have hstill := still_resolveAll env x.resolver k 0 w x.pending
  refine resolveRound_cases (P := fun w' => w'.Frugal env origin earlier resolver k)
    (fun w₁ refusal heq => ?_) fun w₁ waiters heq => ?_ <;> rw [heq] at hstill
  · exact ⟨since, _, (h.still hstill).modifyWalk _ ⟨rfl, rfl, rfl, rfl⟩,
      .supplied nofun (hs.congr rfl rfl rfl fun name => (hstill.kept.contains name).trans),
      fun _ => .inr rfl⟩
  · have hresolving : Frugal env origin earlier resolver k (w₁.modifyWalk k fun x =>
        { x with phase := .resolving waiters (Tally.start waiters.length) }) :=
      ⟨since, _, (h.still hstill).modifyWalk _ ⟨rfl, rfl, rfl, rfl⟩,
        .supplied nofun (hs.congr rfl rfl rfl fun name => (hstill.kept.contains name).trans),
        fun hnil => absurd hnil hpending⟩
    exact hresolving.loop _

/-- **A round begins**: the texts that are asked for are new. -/
theorem frugal_startRound (h : Progress origin earlier resolver k w since x)
    (hs : x.Supplied origin w.store since) (honce : x.pending.Nodup)
    (hfetching : ∀ missing, x.phase ≠ .fetching missing)
    (hbefore : ∀ name, origin.contains name = true → w.store.contains name = true) :
    (w.startRound env k x).Frugal env origin earlier resolver k := by
  refine startRound_cases (P := fun w' => w'.Frugal env origin earlier resolver k)
    (fun _ => frugal_endWalk h (.supplied hfetching hs) _)
    (fun hsome _ => frugal_resolveRound h hs hsome) fun hsome missing hmissing _ => ?_
  have hmem : ∀ name ∈ missing, name ∈ x.pending ∧ w.store.contains name = false := by
    intro name hname
    rw [hmissing] at hname
    simpa using List.mem_filter.mp hname
  have hapart : ∀ name ∈ missing, name ∉ since := by
    intro name hname hsince
    have hheld := hs.held name hsince
    rw [(hmem name hname).2] at hheld
    cases hheld
  have hseeks : x.Seeks origin (since ++ missing) := by
    refine ⟨List.nodup_append.mpr ⟨hs.seeks.once, hmissing.symm ▸ honce.filter _, ?_⟩,
      fun name hname => ?_, fun name hname => ?_⟩
    · rintro name hsince _ hname rfl
      exact hapart name hname hsince
    · exact (List.mem_append.mp hname).elim (hs.seeks.reached name)
        fun hname => .inr (hmem name hname).1
    · rcases List.mem_append.mp hname with hname | hname
      · exact hs.seeks.unknown name hname
      · refine Bool.eq_false_iff.mpr fun horigin => ?_
        have hunknown := (hmem name hname).2
        rw [hbefore name horigin] at hunknown
        cases hunknown
  exact ⟨since, _, ⟨getElem?_modifyWalk_self (w := { w with loop := _ }) h.here _, h.resolver,
    h.asked, h.advances.congr rfl rfl rfl⟩, .awaiting (.inl rfl) (hseeks.congr rfl rfl) hs.held
      (Walk.awaits_ofScripts (.refl _) hapart rfl), fun hnil => absurd hnil hsome⟩

theorem frugal_addRound (h : Progress origin earlier resolver k w since x)
    (hpending : x.pending ≠ []) {known missing texts : List String}
    (hseeks : x.Seeks origin (known ++ missing))
    (hheld : ∀ name ∈ known, w.store.contains name = true)
    (hawaits : x.Awaits env k known missing since)
    (hv : x.fetches.tally.verdict = some (.returned texts)) :
    (w.addRound env k x missing texts).Frugal env origin earlier resolver k := by
  obtain ⟨hlength, -, -, -⟩ := hawaits.returned hseeks.once hv
  refine frugal_resolveRound
    ⟨(congrArg (·[k]?) (walks_addAll _ w)).trans h.here, h.resolver,
      (asked_addAll _ w).trans h.asked, h.advances⟩ ?_ hpending
  refine hawaits.supplied hseeks hv fun name hname => contains_addAll ?_
  rw [List.map_fst_zip hlength.ge]
  exact (List.mem_append.mp hname).symm.imp_right (hheld name)

/-- **The files of a round are resolved**: the next round is made of names that are new. -/
theorem frugal_finishRound (h : Progress origin earlier resolver k w since x)
    (hs : x.Supplied origin w.store since) (hpending : x.pending ≠ [])
    (hfetching : ∀ missing, x.phase ≠ .fetching missing)
    (hcovers : x.Covers origin entries w.store)
    (hheld : ∀ name ∈ x.pending, w.store.contains name = true) (infos : List Dependencies) :
    (w.finishRound env k x infos).Frugal env origin earlier resolver k := by
  have hvisited : ∀ name ∈ x.visited, w.store.contains name = true := by
    intro name hname
    obtain ⟨info, ⟨id, r, hid, -⟩, -⟩ := hcovers.resolved name hname
    exact Store.contains_of_current? hid
  have hnew : ∀ name ∈ w.unfetched infos,
      (name ∉ x.visited ∧ name ∉ x.pending) ∧ origin.contains name = false := by
    intro name hname
    have hunknown := Bool.eq_false_iff.mp (mem_unfetched.mp hname).2
    exact ⟨⟨fun hmem => hunknown (hvisited name hmem), fun hmem => hunknown (hheld name hmem)⟩,
      Bool.eq_false_iff.mpr fun horigin => hunknown (hcovers.before name horigin)⟩
  unfold finishRound
  simp only
  have hasked : (w.note (.walked x.pending.length (w.unfetched infos).length)).asked =
      earlier ++ since := (asked_note w _).trans h.asked
  refine frugal_startRound ⟨getElem?_modifyWalk_self
      (w := w.note (.walked x.pending.length (w.unfetched infos).length)) h.here _, h.resolver,
      hasked, h.advances.next hcovers.once hpending hnew rfl rfl rfl⟩
    ⟨hs.seeks.mono fun name hname => .inl ?_, hs.held, hs.settled⟩ (Dependencies.nodup_distinct _)
    hfetching hcovers.before
  exact Dependencies.mem_distinct.mpr (List.mem_append.mpr hname)

/-! ## Jobs of the walk -/

theorem frugal_wakeWalk (h : Progress origin earlier resolver k w since x)
    (ha : x.Asks env k origin w.store since)
    (hbusy : x.pending = [] → x.phase = .starting ∨ x.phase = .finished)
    (hcovers : x.Covers origin entries w.store) (hattends : x.Attends w.store) :
    (w.wakeWalk env k x).Frugal env origin earlier resolver k := by
  refine wakeWalk_cases (P := fun w' => w'.Frugal env origin earlier resolver k)
    ⟨since, x, h, ha, hbusy⟩ (fun ending _ _ => frugal_endWalk h ha ending)
    (fun _ missing texts hp hv => ?_) fun _ waiters tally infos hp hv => ?_
  · have hpending : x.pending ≠ [] := fun hnil => by simpa [hp] using hbusy hnil
    cases ha with
    | awaiting phase seeks held awaits =>
      obtain heq : _ = Phase.fetching _ :=
        hp.symm.trans (phase.resolve_right (by rw [hp]; nofun))
      cases heq
      exact frugal_addRound h hpending seeks held awaits hv
    | supplied phase _ => exact absurd hp (phase missing)
  · have hpending : x.pending ≠ [] := fun hnil => by simpa [hp] using hbusy hnil
    exact frugal_finishRound h (ha.supplied_of (by simp [hp]) (by simp [hp])) hpending
      (by simp [hp]) hcovers (hattends.contains hp) infos

theorem frugal_hearWalk (h : Progress origin earlier resolver k w since x)
    (ha : x.Asks env k origin w.store since)
    (hbusy : x.pending = [] → x.phase = .starting ∨ x.phase = .finished) (place : Nat) :
    (w.hearWalk k x place).Frugal env origin earlier resolver k := by
  refine hearWalk_cases (P := fun w' => w'.Frugal env origin earlier resolver k)
    ⟨since, x, h, ha, hbusy⟩ fun waiters tally ending hp _ => ?_
  have hs := ha.supplied_of (by simp [hp]) (by simp [hp])
  have hheard : Frugal env origin earlier resolver k (w.modifyWalk k fun x =>
      { x with phase := .resolving waiters (tally.hear place ending) }) :=
    ⟨since, _, h.modifyWalk _ ⟨rfl, rfl, rfl, rfl⟩,
      .supplied nofun (hs.congr rfl rfl rfl fun _ => id),
      fun hnil => by simpa [hp] using hbusy hnil⟩
  exact ⟨hheard, hheard.loop _⟩

/-- A job of the texts that the walk fetches. -/
theorem frugal_fetch (h : Progress origin earlier resolver k w since x)
    (ha : x.Asks env k origin w.store since)
    (hbusy : x.pending = [] → x.phase = .starting ∨ x.phase = .finished) (job : JoinJob) :
    (w.performFetch k x job).Frugal env origin earlier resolver k := by
  unfold performFetch
  generalize hdone : x.fetches.perform (fun j => Job.walk k (.fetch j)) w.loop job = done
  have hprogress : Progress origin earlier resolver k
      ((({ w with loop := done.2.1 } : World).modifyWalk k fun y => { y with
        fetches := done.2.2 }).record done.1) (since ++ done.1.filterMap Event.fetch?)
      { x with fetches := done.2.2 } := by
    refine ⟨getElem?_modifyWalk_self (w := { w with loop := _ }) h.here _, h.resolver, ?_,
      h.advances.congr rfl rfl rfl⟩
    rw [asked_record, ← List.append_assoc, ← h.asked]
    rfl
  refine ⟨_, _, hprogress, ?_, hbusy⟩
  subst hdone
  cases ha with
  | awaiting phase seeks held awaits =>
    exact .awaiting phase (seeks.congr rfl rfl) held
      (awaits.perform (List.nodup_append.mp seeks.once).2.1 w.loop job)
  | supplied phase supplied =>
    obtain ⟨hnone, hsettled⟩ :=
      supplied.settled.perform (fun j => Job.walk k (.fetch j)) w.loop job
    rw [hnone, List.filterMap_nil, List.append_nil]
    exact .supplied phase ⟨supplied.seeks.congr rfl rfl, supplied.held, hsettled⟩

/-- **Every job of the walk** leaves it frugal. -/
theorem frugal_performWalk (h : w.Frugal env origin earlier resolver k)
    (htracks : w.Tracks origin entries k) {job : WalkJob}
    (hstart : ∀ x, w.walks[k]? = some x → job = .start → x.phase = .starting) :
    (w.performWalk env k job).Frugal env origin earlier resolver k := by
  obtain ⟨since, x, hprogress, ha, hbusy⟩ := h
  obtain ⟨x', hx', hcovers, hattends, -⟩ := htracks
  obtain rfl := Option.some.inj (hprogress.here.symm.trans hx')
  refine performWalk_cases (P := fun w' => w'.Frugal env origin earlier resolver k) hprogress.here
    job (fun _ => frugal_endWalk hprogress ha _) (fun hfirst _ => ?_)
    (frugal_wakeWalk hprogress ha hbusy hcovers hattends)
    (frugal_fetch hprogress ha hbusy) (frugal_hearWalk hprogress ha hbusy)
  have hphase := hstart x hprogress.here hfirst
  exact frugal_startRound hprogress (ha.supplied_of (by simp [hphase]) (by simp [hphase]))
    hcovers.once.2 (by simp [hphase]) hcovers.before

/-- It is due that a walk begins only before it does. -/
theorem Pursues.starting_of_next {loop : Loop Job} (h : Pursues envs k w x)
    (hnext : w.loop.next? = some (.walk k .start, loop)) : x.phase = .starting := by
  obtain ⟨hpos, -⟩ := count_of_next (pop_errand hnext rfl).1
  cases h.stage with
  | starting phase _ _ _ _ _ => exact phase
  | fetching _ _ _ _ _ start _ => omega
  | resolving _ _ _ _ _ start => omega
  | finished _ _ _ _ start => omega

/-- **Every action** leaves the walk frugal, as long as nobody else asks for texts. -/
theorem frugal_apply (h : w.Frugal (envs resolver) origin earlier resolver k)
    (htracks : w.Tracks origin entries k) (hx : Pursues envs k w x)
    (hquiet : ∀ id r, w.store.record? id = some r → r.Logs fun e => e.fetch? = none)
    (hsettled : ∀ j y, j ≠ k → w.walks[j]? = some y → y.fetches.Settled)
    (hcancel : a ≠ .cancelWalk k)
    (hcontains : ∀ name, w.store.contains name = true →
      (w.apply envs a).store.contains name = true) :
    (w.apply envs a).Frugal (envs resolver) origin earlier resolver k := by
  obtain ⟨since, y, hprogress, ha, hbusy⟩ := h
  obtain rfl := Option.some.inj (hx.walk.symm.trans hprogress.here)
  have helse : (w.apply envs a).walks[k]? = w.walks[k]? →
      (a = .tick → ∀ job loop, w.loop.next? ≠ some (.walk k job, loop)) →
      (w.apply envs a).Frugal (envs resolver) origin earlier resolver k := fun hwalk htick =>
    ⟨since, x, ⟨hwalk.trans hprogress.here, hprogress.resolver,
      (asked_apply hquiet hsettled htick).trans hprogress.asked, hprogress.advances⟩,
      ha.later hcontains, hbusy⟩
  rcases apply_cases envs (List.getElem?_eq_some_iff.mp hx.walk).1 hcancel with
    ⟨rfl, job, loop, hnext⟩ | ⟨gate, rfl⟩ | ⟨helsewhere, htick⟩
  · have hpopped : Frugal (envs resolver) origin earlier resolver k { w with loop } :=
      Frugal.loop ⟨since, x, hprogress, ha, hbusy⟩ loop
    have htracks' : Tracks origin entries k { w with loop } := htracks
    rw [apply_tick_walk hx.walk hnext, hprogress.resolver]
    refine frugal_performWalk hpopped htracks' fun y hy hjob => ?_
    obtain rfl := Option.some.inj (hx.walk.symm.trans hy)
    exact hx.starting_of_next (hjob ▸ hnext)
  · exact helse rfl fun htick => by cases htick
  · exact helse helsewhere.walk htick

end World

end DepGraph
