import DepGraph.Proofs.Merging
import DepGraph.Proofs.Reachable

/-!
# What a walk has covered

* `Tally.Vouches` — what a tally has heard of, and what its verdict holds, has a given property.
* `Walk.Covers` — what a walk has visited, and what it is about to resolve, in a store.
* `Walk.Attends` — what a walk waits for is what it is about to resolve.
* `World.Tracks` — both hold of a walk of a world, and whatever it has returned is what it visited.
* `World.tracks_performWalk` — every job of the walk keeps it so.
-/

set_option autoImplicit false

namespace DepGraph

/-! ## Tallies -/

namespace Tally

variable {φ α : Type} {P : Nat → α → Prop} {t : Tally φ α}

/-- Every value heard of has the property at its place, and so has every value of the verdict. -/
structure Vouches (P : Nat → α → Prop) (t : Tally φ α) : Prop where
  heard : ∀ i a, t.heard[i]? = some (some (.returned a)) → P i a
  verdict : ∀ values, t.verdict = some (.returned values) →
    values.length = t.heard.length ∧ ∀ i a, values[i]? = some a → P i a

theorem vouches_start (P : Nat → α → Prop) (n : Nat) : (start n : Tally φ α).Vouches P := by
  refine ⟨fun i a h => ?_, fun values h => by cases h⟩
  have hmem := List.mem_of_getElem? h
  cases List.eq_of_mem_replicate hmem

theorem Vouches.mono {Q : Nat → α → Prop} (h : t.Vouches P) (hPQ : ∀ i a, P i a → Q i a) :
    t.Vouches Q :=
  ⟨fun i a hi => hPQ i a (h.heard i a hi), fun values hv =>
    ⟨(h.verdict values hv).1, fun i a hi => hPQ i a ((h.verdict values hv).2 i a hi)⟩⟩

/-- A value that has the property may be heard of. -/
theorem Vouches.hear (h : t.Vouches P) {i : Nat} {ending : Ending φ α}
    (hP : ∀ a, ending = .returned a → P i a) : (t.hear i ending).Vouches P := by
  have hheard : ∀ j a, (t.hear i ending).heard[j]? = some (some (.returned a)) → P j a := by
    intro j a hj
    rw [getElem?_hear] at hj
    split at hj
    · rename_i heq
      subst heq
      obtain ⟨_, -, hending⟩ := Option.map_eq_some_iff.mp hj
      exact hP a (Option.some.inj hending)
    · exact h.heard j a hj
  refine ⟨hheard, fun values hv => ?_⟩
  cases hverdict : t.verdict with
  | some v =>
    rw [hear_of_verdict hverdict] at hv
    rw [length_hear]
    exact h.verdict values (hverdict.trans hv)
  | none =>
    have hjudge : judge (t.hear i ending).heard ending = some (.returned values) := by
      rw [← hv]
      simp [Tally.hear, hverdict]
    obtain ⟨a, rfl⟩ : ∃ a, ending = .returned a := by
      cases ending with
      | returned a => exact ⟨a, rfl⟩
      | raised f => cases hjudge
      | cancelled => cases hjudge
    obtain ⟨values', hvalues, heq⟩ := Option.map_eq_some_iff.mp hjudge
    cases heq
    have hall := values?_eq_some.mp hvalues
    refine ⟨by rw [hall, List.length_map], fun j b hj => hheard j b ?_⟩
    rw [hall, List.getElem?_map, hj]
    rfl

end Tally

/-! ## What a walk covers -/

/-- How far a walk has come that was requested for `entries` when the store was `origin`. -/
structure Walk.Covers (origin : Store) (entries : List String) (s : Store) (x : Walk) : Prop where
  /-- Every entry is visited or about to be resolved. -/
  asked : ∀ name ∈ entries, name ∈ x.visited ∨ name ∈ x.pending
  /-- What is no entry was not known at first. -/
  fresh : ∀ name, name ∈ x.visited ∨ name ∈ x.pending →
    name ∈ entries ∨ origin.contains name = false
  /-- What was not known at first came by the walk. -/
  since : ∀ name, s.contains name = true →
    origin.contains name = true ∨ name ∈ x.visited ∨ name ∈ x.pending
  before : ∀ name, origin.contains name = true → s.contains name = true
  /-- What is visited is resolved, and so will be what it depends on, unless that was known at
  first. -/
  resolved : ∀ name ∈ x.visited, ∃ info, s.Resolved name info ∧
    ∀ d ∈ info.list, d ∈ x.visited ∨ d ∈ x.pending ∨ origin.contains d = true
  reached : ∀ name, name ∈ x.visited ∨ name ∈ x.pending → s.Reaches entries name
  once : x.visited.Nodup ∧ x.pending.Nodup

/-- What a walk waits for is what it is about to resolve. -/
def Walk.Attends (s : Store) (x : Walk) : Prop :=
  match x.phase with
  | .fetching missing =>
    missing.Nodup ∧ ∀ name ∈ missing, name ∈ x.pending ∧ s.contains name = false
  | .resolving waiters tally =>
    waiters.map (fun p => p.1.name) = x.pending ∧
      (∀ p ∈ waiters, s.current? p.1.name = some p.1) ∧
      tally.heard.length = x.pending.length ∧
      tally.Vouches fun i info => ∃ name, x.pending[i]? = some name ∧ s.Resolved name info
  | _ => True

/-- A walk that has returned has nothing left to do, and has returned what it has visited. -/
def Walk.Returns (x : Walk) : Prop :=
  ∀ names, x.outcome = some (.returned names) →
    names = x.visited ∧ x.pending = [] ∧ x.phase = .finished

variable {origin s s' : Store} {entries : List String} {x : Walk}

theorem Walk.Covers.later (h : x.Covers origin entries s) (hs : s.Later s')
    (hnames : ∀ name, s'.contains name = true →
      s.contains name = true ∨ name ∈ x.visited ∨ name ∈ x.pending) :
    x.Covers origin entries s' := by
  refine ⟨h.asked, h.fresh, fun name hname => ?_,
    fun name hname => hs.contains (h.before name hname), fun name hname => ?_,
    fun name hname => (h.reached name hname).later hs, h.once⟩
  · rcases hnames name hname with hname | hname
    · exact h.since name hname
    · exact .inr hname
  · obtain ⟨info, hinfo, hlist⟩ := h.resolved name hname
    exact ⟨info, hinfo.later hs, hlist⟩

/-- Only what is visited and what is about to be resolved counts. -/
theorem Walk.Covers.congr (h : x.Covers origin entries s) {y : Walk} (hv : y.visited = x.visited)
    (hp : y.pending = x.pending) : y.Covers origin entries s := by
  refine ⟨?_, ?_, ?_, h.before, ?_, ?_, ?_⟩ <;> rw [hv, hp]
  exacts [h.asked, h.fresh, h.since, h.resolved, h.reached, h.once]

theorem Walk.Attends.later (h : x.Attends s) (hs : s.Later s')
    (hnames : ∀ name, s'.contains name = s.contains name) : x.Attends s' := by
  unfold Attends at h ⊢
  split
  · rename_i missing hp
    rw [hp] at h
    exact ⟨h.1, fun name hname => ⟨(h.2 name hname).1, (hnames name).trans (h.2 name hname).2⟩⟩
  · rename_i waiters tally hp
    rw [hp] at h
    obtain ⟨hwaiters, hcurrent, hlength, hvouches⟩ := h
    refine ⟨hwaiters, fun p hp => hs.current _ _ (hcurrent p hp), hlength, hvouches.mono ?_⟩
    rintro i info ⟨name, hi, hresolved⟩
    exact ⟨name, hi, hresolved.later hs⟩
  · trivial

namespace World

variable {env : Nat → Environment} {w : World} {k : Nat}

/-- How far walk `k` of the world has come, and that it waits for the right thing. -/
def Tracks (origin : Store) (entries : List String) (k : Nat) (w : World) : Prop :=
  ∃ x, w.walks[k]? = some x ∧ x.Covers origin entries w.store ∧ x.Attends w.store ∧ x.Returns

theorem getElem?_modifyWalk (w : World) (k : Nat) (change : Walk → Walk) (i : Nat) :
    (w.modifyWalk k change).walks[i]? =
      if k = i then (w.walks[i]?).map change else w.walks[i]? := by
  simp only [modifyWalk, List.getElem?_modify]
  by_cases h : k = i <;> simp [h]

/-- What a change of a walk leaves as it is stays the same for all walks. -/
theorem map_walks_modifyWalk {β : Type} {f : Walk → β} (w : World) (k : Nat) {change : Walk → Walk}
    (h : ∀ x, w.walks[k]? = some x → f (change x) = f x) :
    (w.modifyWalk k change).walks.map f = w.walks.map f := by
  refine List.ext_getElem? fun i => ?_
  simp only [List.getElem?_map, getElem?_modifyWalk]
  split
  · rename_i hik
    subst hik
    cases hx : w.walks[k]? with
    | none => rfl
    | some x => simpa using h x hx
  · rfl

theorem tracks_modifyWalk (hx : w.walks[k]? = some x) {change : Walk → Walk}
    (h : (change x).Covers origin entries w.store) (ha : (change x).Attends w.store)
    (hr : (change x).Returns) : (w.modifyWalk k change).Tracks origin entries k := by
  refine ⟨change x, ?_, h, ha, hr⟩
  rw [getElem?_modifyWalk, if_pos rfl, hx]
  rfl

/-! ## Rounds -/

theorem tracks_endWalk (hx : w.walks[k]? = some x) (h : x.Covers origin entries w.store)
    {ending : Ending WalkFault (List String)}
    (hending : ∀ names, ending = .returned names → names = x.visited ∧ x.pending = []) :
    (w.endWalk k ending).Tracks origin entries k := by
  refine tracks_modifyWalk hx (h.congr rfl rfl) trivial fun names hnames => ?_
  obtain ⟨hvisited, hpending⟩ := hending names (Option.some.inj hnames)
  exact ⟨hvisited, hpending, rfl⟩

theorem kept_resolveAll (env : Environment) (resolver k place : Nat) (w : World)
    (names : List String) : w.store.Kept (resolveAll env resolver k place w names).1.store :=
  resolveAll_induction (R := fun w w' => w.store.Kept w'.store) (fun _ => .refl _)
    (fun h h' => h.trans h') (fun w name _ => kept_resolve env w resolver name _) place w names

theorem later_resolveAll (hx : w.walks[k]? = some x) (place : Nat) (names : List String) :
    w.store.Later (resolveAll (env x.resolver) x.resolver k place w names).1.store :=
  Store.later_of_ended (kept_resolveAll _ _ _ _ _ _) fun _ _ _ hr hs =>
    Moves.ended (resolveAll_moves env hx place names) hr hs

/-- A request that is answered finds the file it asks for. -/
theorem current?_of_resolve {env : Environment} {resolver : Nat} {name : String}
    {listener : Option WalkRef} {p : FileId × Nat}
    (h : (w.resolve env resolver name listener).2 = .ok p) : w.store.current? name = some p.1 := by
  rcases resolve_spec env w resolver name listener with
    ⟨_, h'⟩ | ⟨id, r, hid, _, ⟨_, _, _, h'⟩ | ⟨_, _, _, _, h'⟩ | ⟨_, h'⟩⟩ <;>
    rw [h'] at h <;> cases h
  · exact hid
  · exact hid

/-- The waiters of a round wait for its files, in order. -/
theorem resolveAll_names {env : Environment} {resolver place : Nat} {names : List String}
    {w' : World} {waiters : List (FileId × Nat)}
    (h : resolveAll env resolver k place w names = (w', .ok waiters)) :
    waiters.map (fun p => p.1.name) = names ∧
      ∀ p ∈ waiters, w.store.current? p.1.name = some p.1 := by
  induction names generalizing w place waiters with
  | nil =>
    cases h
    exact ⟨rfl, by simp⟩
  | cons name rest ih =>
    have hkept := kept_resolve env w resolver name (some ⟨k, place⟩)
    unfold resolveAll at h
    split at h
    · cases h
    · rename_i w₁ waiter heq
      split at h
      · cases h
      · rename_i w₂ others heq'
        cases h
        have hid : w.store.current? name = some waiter.1 :=
          current?_of_resolve (congrArg Prod.snd heq)
        have hname := Store.current?_name hid
        rw [heq] at hkept
        obtain ⟨hnames, hcurrent⟩ := ih heq'
        refine ⟨by rw [List.map_cons, hnames, hname], fun p hp => ?_⟩
        rcases List.mem_cons.mp hp with rfl | hp
        · rw [hname]
          exact hid
        · exact (hkept.current? _).symm.trans (hcurrent p hp)

theorem tracks_resolveRound (hx : w.walks[k]? = some x) (h : x.Covers origin entries w.store)
    (hout : ∀ names, x.outcome ≠ some (.returned names)) :
    (w.resolveRound (env x.resolver) k x).Tracks origin entries k := by
  have hkept := kept_resolveAll (env x.resolver) x.resolver k 0 w x.pending
  have hlater :
      w.store.Later (resolveAll (env x.resolver) x.resolver k 0 w x.pending).1.store :=
    later_resolveAll hx 0 x.pending
  have hwalks := walks_resolveAll (env x.resolver) x.resolver k 0 w x.pending
  refine resolveRound_cases (fun w₁ refusal heq => ?_) fun w₁ waiters heq => ?_ <;>
    rw [heq] at hkept hlater hwalks
  · refine tracks_endWalk (hwalks ▸ hx) (h.later hlater fun name hname => .inl ?_) nofun
    rwa [← hkept.contains]
  · obtain ⟨hnames, hcurrent⟩ := resolveAll_names heq
    have hcovers : x.Covers origin entries w₁.store :=
      h.later hlater fun name hname => .inl (by rwa [← hkept.contains])
    have hfinal : Tracks origin entries k (w₁.modifyWalk k fun x =>
        { x with phase := .resolving waiters (Tally.start waiters.length) }) := by
      refine tracks_modifyWalk (hwalks ▸ hx) (hcovers.congr rfl rfl)
        ⟨hnames, fun p hp => ?_, ?_, Tally.vouches_start _ _⟩
        fun names hreturned => absurd hreturned (hout names)
      · exact (hkept.current? _).trans (hcurrent p hp)
      · rw [← hnames]
        simp [Tally.start]
    exact hfinal

theorem tracks_startRound (hx : w.walks[k]? = some x) (h : x.Covers origin entries w.store)
    (hout : ∀ names, x.outcome = some (.returned names) → x.pending = []) :
    (w.startRound (env x.resolver) k x).Tracks origin entries k := by
  have hout' : x.pending ≠ [] → ∀ names, x.outcome ≠ some (.returned names) :=
    fun hpending names hreturned => hpending (hout names hreturned)
  refine startRound_cases (fun hnil => tracks_endWalk hx h fun names hnames => ?_)
    (fun hpending _ => tracks_resolveRound hx h (hout' hpending))
    fun hpending missing hmissing _ => ?_
  · cases hnames
    exact ⟨rfl, hnil⟩
  · subst hmissing
    refine tracks_modifyWalk hx (h.congr rfl rfl) ⟨h.once.2.filter _, fun name hname => ?_⟩
      fun names hreturned => absurd hreturned (hout' hpending names)
    obtain ⟨hmem, hunknown⟩ := List.mem_filter.mp hname
    exact ⟨hmem, by simpa using hunknown⟩

theorem sublist_zip (names texts : List String) :
    ((names.zip texts).map (·.1)).Sublist names := by
  induction names generalizing texts with
  | nil => exact .slnil
  | cons name rest ih =>
    cases texts with
    | nil => exact List.nil_sublist _
    | cons text texts => exact (ih texts).cons_cons name

/-- Files under new names are added. -/
theorem later_addAll {files : List (String × String)} (hnodup : (files.map (·.1)).Nodup)
    (hnew : ∀ file ∈ files, w.store.contains file.1 = false) :
    w.store.Later (files.foldl (fun w (name, text) => w.add name text) w).store ∧
      (files.foldl (fun w (name, text) => w.add name text) w).walks = w.walks ∧
      ∀ name, (files.foldl (fun w (name, text) => w.add name text) w).store.contains name = true →
        w.store.contains name = true ∨ name ∈ files.map (·.1) := by
  induction files generalizing w with
  | nil => exact ⟨.refl _, rfl, fun name h => .inl h⟩
  | cons file rest ih =>
    obtain ⟨name, text⟩ := file
    simp only [List.map_cons, List.nodup_cons] at hnodup
    have hstore := store_add w name text
    have hnew' : ∀ file ∈ rest, (w.add name text).store.contains file.1 = false := by
      intro file hfile
      have hne : file.1 ≠ name := fun e => hnodup.1 (List.mem_map.mpr ⟨file, hfile, e⟩)
      rw [hstore, Store.contains_add, hnew file (List.mem_cons_of_mem _ hfile)]
      simp [hne]
    obtain ⟨hlater, hwalks, hnames⟩ := ih hnodup.2 hnew'
    have hfirst : w.store.Later (w.add name text).store :=
      hstore ▸ Store.later_add (hnew (name, text) List.mem_cons_self)
    refine ⟨hfirst.trans hlater, hwalks.trans (walks_add w name text), fun other hother => ?_⟩
    rcases hnames other hother with hother | hother
    · rw [hstore, Store.contains_add, Bool.or_eq_true, decide_eq_true_eq] at hother
      rcases hother with rfl | hother
      · exact .inr List.mem_cons_self
      · exact .inl hother
    · exact .inr (List.mem_cons_of_mem _ hother)

theorem tracks_addRound (hx : w.walks[k]? = some x) (h : x.Covers origin entries w.store)
    (hout : ∀ names, x.outcome ≠ some (.returned names)) {missing : List String}
    (hnodup : missing.Nodup)
    (hnew : ∀ name ∈ missing, name ∈ x.pending ∧ w.store.contains name = false)
    (texts : List String) :
    (w.addRound (env x.resolver) k x missing texts).Tracks origin entries k := by
  have hsublist := sublist_zip missing texts
  have hmem : ∀ name ∈ (missing.zip texts).map (·.1), name ∈ missing :=
    fun name hname => hsublist.subset hname
  obtain ⟨hlater, hwalks, hnames⟩ := later_addAll (w := w) (hsublist.nodup hnodup) fun file hfile =>
    (hnew file.1 (hmem file.1 (List.mem_map_of_mem hfile))).2
  refine tracks_resolveRound (hwalks ▸ hx) (h.later hlater fun name hname => ?_) hout
  exact (hnames name hname).imp_right fun hfile => .inr (hnew name (hmem name hfile)).1

theorem mem_unfetched {w : World} {infos : List Dependencies} {name : String} :
    name ∈ w.unfetched infos ↔
      (∃ info ∈ infos, name ∈ info.list) ∧ w.store.contains name = false := by
  simp [unfetched, Dependencies.mem_distinct]

/-- The files of a round are resolved: what they depend on and is not known is next. -/
theorem covers_finishRound (h : x.Covers origin entries w.store) {infos : List Dependencies}
    (hlength : infos.length = x.pending.length)
    (hinfos : ∀ (i : Nat) (info : Dependencies), infos[i]? = some info →
      ∃ name, x.pending[i]? = some name ∧ w.store.Resolved name info) :
    ({ x with
      visited := Dependencies.distinct (x.visited ++ x.pending)
      pending := w.unfetched infos
      round := x.round + 1 } : Walk).Covers origin entries w.store := by
  have hvisited : ∀ name, name ∈ Dependencies.distinct (x.visited ++ x.pending) ↔
      name ∈ x.visited ∨ name ∈ x.pending := fun name => by
    rw [Dependencies.mem_distinct, List.mem_append]
  -- A dependency is known and was covered before, or was known at first, or is next.
  have hnext : ∀ info ∈ infos, ∀ d ∈ info.list, d ∈ Dependencies.distinct (x.visited ++ x.pending) ∨
      d ∈ w.unfetched infos ∨ origin.contains d = true := by
    intro info hinfo d hd
    cases hknown : w.store.contains d with
    | true =>
      rcases h.since d hknown with horigin | hcovered
      · exact .inr (.inr horigin)
      · exact .inl ((hvisited d).mpr hcovered)
    | false => exact .inr (.inl (mem_unfetched.mpr ⟨⟨info, hinfo, hd⟩, hknown⟩))
  refine ⟨fun name hname => .inl ((hvisited name).mpr (h.asked name hname)), fun name hname => ?_,
    fun name hname => ?_, h.before, fun name hname => ?_, fun name hname => ?_,
    Dependencies.nodup_distinct _, Dependencies.nodup_distinct _⟩
  · rcases hname with hname | hname
    · exact h.fresh name ((hvisited name).mp hname)
    · right
      have hunknown := (mem_unfetched.mp hname).2
      cases horigin : origin.contains name with
      | false => rfl
      | true =>
        rw [h.before name horigin] at hunknown
        cases hunknown
  · exact (h.since name hname).imp_right fun hcovered => .inl ((hvisited name).mpr hcovered)
  · rcases (hvisited name).mp hname with hname | hname
    · obtain ⟨info, hinfo, hlist⟩ := h.resolved name hname
      refine ⟨info, hinfo, fun d hd => ?_⟩
      rcases hlist d hd with hd | hd | hd
      · exact .inl ((hvisited d).mpr (.inl hd))
      · exact .inl ((hvisited d).mpr (.inr hd))
      · exact .inr (.inr hd)
    · obtain ⟨i, hi⟩ := List.mem_iff_getElem?.mp hname
      have hlt : i < infos.length := hlength ▸ (List.getElem?_eq_some_iff.mp hi).1
      obtain ⟨other, hother, hresolved⟩ := hinfos i infos[i] (List.getElem?_eq_getElem hlt)
      obtain rfl := Option.some.inj (hi.symm.trans hother)
      exact ⟨infos[i], hresolved, hnext _ (List.getElem_mem hlt)⟩
  · rcases hname with hname | hname
    · exact h.reached name ((hvisited name).mp hname)
    · obtain ⟨⟨info, hinfo, hd⟩, -⟩ := mem_unfetched.mp hname
      obtain ⟨i, hi⟩ := List.mem_iff_getElem?.mp hinfo
      obtain ⟨parent, hparent, hresolved⟩ := hinfos i info hi
      exact (h.reached parent (.inr (List.mem_of_getElem? hparent))).step ⟨info, hresolved, hd⟩

theorem tracks_finishRound (hx : w.walks[k]? = some x) (h : x.Covers origin entries w.store)
    (hout : ∀ names, x.outcome ≠ some (.returned names)) {infos : List Dependencies}
    (hlength : infos.length = x.pending.length)
    (hinfos : ∀ (i : Nat) (info : Dependencies), infos[i]? = some info →
      ∃ name, x.pending[i]? = some name ∧ w.store.Resolved name info) :
    (w.finishRound (env x.resolver) k x infos).Tracks origin entries k := by
  have hcovers := covers_finishRound h hlength hinfos
  unfold finishRound
  simp only
  generalize hnext : ({ x with
    visited := Dependencies.distinct (x.visited ++ x.pending)
    pending := w.unfetched infos
    round := x.round + 1 } : Walk) = next at hcovers ⊢
  have hres : next.resolver = x.resolver := by rw [← hnext]
  have houtcome : next.outcome = x.outcome := by rw [← hnext]
  generalize Notice.walked x.pending.length (w.unfetched infos).length = notice
  have hwalk : ((w.note notice).modifyWalk k fun _ => next).walks[k]? = some next := by
    rw [getElem?_modifyWalk, if_pos rfl]
    exact congrArg _ hx
  rw [← hres]
  refine tracks_startRound hwalk hcovers fun names hreturned => ?_
  exact absurd (houtcome.symm.trans hreturned) (hout names)

/-! ## Jobs of the walk -/

theorem tracks_wakeWalk (hx : w.walks[k]? = some x) (h : x.Covers origin entries w.store)
    (ha : x.Attends w.store) (hr : x.Returns) :
    (w.wakeWalk (env x.resolver) k x).Tracks origin entries k := by
  have hout : ∀ {phase : Phase}, x.phase = phase → phase ≠ .finished →
      ∀ names, x.outcome ≠ some (.returned names) := fun hp hne names hreturned =>
    hne (hp.symm.trans (hr names hreturned).2.2)
  refine wakeWalk_cases ⟨x, hx, h, ha, hr⟩
    (fun ending hending _ => tracks_endWalk hx h fun names hnames => absurd hnames (hending names))
    (fun _ missing texts hp _ => ?_) fun _ waiters tally infos hp hv => ?_
  · simp only [Walk.Attends, hp] at ha
    exact tracks_addRound hx h (hout hp nofun) ha.1 ha.2 _
  · simp only [Walk.Attends, hp] at ha
    obtain ⟨-, -, hlength, hvouches⟩ := ha
    obtain ⟨hinfos, hvalues⟩ := hvouches.verdict infos hv
    exact tracks_finishRound hx h (hout hp nofun) (hinfos.trans hlength) hvalues

/-- What a waiter has returned is what the resolution of its file has returned. -/
def Returned (w : World) : Prop :=
  ∀ id k info, w.outcome? id k = some (.returned info) →
    ∃ r, w.store.record? id = some r ∧ r.cell.stage = .ended (.returned info)

theorem tracks_hearWalk (hx : w.walks[k]? = some x) (h : x.Covers origin entries w.store)
    (ha : x.Attends w.store) (hr : x.Returns) (hreturned : w.Returned) (place : Nat) :
    (w.hearWalk k x place).Tracks origin entries k := by
  refine hearWalk_cases ⟨x, hx, h, ha, hr⟩ fun waiters tally ending hp hending => ?_
  simp only [Walk.Attends, hp] at ha
  obtain ⟨hnames, hcurrent, hlength, hvouches⟩ := ha
  have hheard : Tracks origin entries k (w.modifyWalk k fun x =>
      { x with phase := .resolving waiters (tally.hear place ending) }) := by
    refine tracks_modifyWalk hx (h.congr rfl rfl)
      ⟨hnames, hcurrent, (Tally.length_hear _ _ _).trans hlength, hvouches.hear ?_⟩
      fun names hreturned => ?_
    · rintro info rfl
      obtain ⟨p, hplace, hout⟩ := Option.bind_eq_some_iff.mp hending
      obtain ⟨r, hrecord, hs⟩ := hreturned p.1 p.2 info hout
      refine ⟨p.1.name, ?_, p.1, r, hcurrent p (List.mem_of_getElem? hplace), hrecord, hs⟩
      rw [← hnames, List.getElem?_map, hplace]
      rfl
    · have hover := (hr names hreturned).2.2
      rw [hp] at hover
      cases hover
  exact ⟨hheard, hheard⟩

/-- **Every job of a walk** keeps track of what it has covered. -/
theorem tracks_performWalk (h : w.Tracks origin entries k) (hreturned : w.Returned)
    (job : WalkJob) :
    (w.performWalk (env ((w.walks[k]?.map Walk.resolver).getD 0)) k job).Tracks origin entries
      k := by
  obtain ⟨x, hx, hcovers, hattends, hreturns⟩ := h
  simp only [hx, Option.map_some, Option.getD_some]
  exact performWalk_cases hx job (fun _ => tracks_endWalk hx hcovers nofun)
    (fun _ _ => tracks_startRound hx hcovers fun names h => (hreturns names h).2.1)
    (tracks_wakeWalk hx hcovers hattends hreturns)
    (fun _ => tracks_modifyWalk hx (hcovers.congr rfl rfl) hattends hreturns)
    (tracks_hearWalk hx hcovers hattends hreturns hreturned)

end World

end DepGraph
