import DepGraph.Proofs.Coverage

/-!
# How far a walk closes over what can be reached

A walk goes on with the dependencies that the store does not know. What the store knew before is
neither resolved nor followed, unless it is an entry.

* `World.tracks_run` — a run keeps track of what a walk has covered.
* `World.walk_closes` — what a walk returns, and when that is all that can be reached.
-/

set_option autoImplicit false

namespace DepGraph.World

variable {env : Nat → Environment} {w : World}

/-- Nothing is covered when a walk is requested. -/
theorem tracks_walk (w : World) (resolver : Nat) (entries : List String) :
    (w.walk resolver entries).1.Tracks w.store entries (w.walk resolver entries).2 := by
  have hpending : ∀ name, name ∈ ([] : List String) ∨ name ∈ Dependencies.distinct entries ↔
      name ∈ entries := fun name => by simp [Dependencies.mem_distinct]
  refine ⟨{ resolver, pending := Dependencies.distinct entries }, List.getElem?_concat_length,
    ⟨fun name hname => (hpending name).mpr hname, fun name hname => .inl ((hpending name).mp hname),
      fun name hname => .inl hname, fun name hname => hname, nofun,
      fun name hname => .entry ((hpending name).mp hname), List.nodup_nil,
      Dependencies.nodup_distinct _⟩, trivial, nofun⟩

theorem returned_run (options : Options) (libName : String) (registries : Nat → Registry)
    (actions : List Action) : ((initial options libName registries).run env actions).Returned := by
  intro id k info hout
  obtain ⟨r, hr, hx⟩ := Option.bind_eq_some_iff.mp hout
  obtain ⟨x, hx, ho⟩ := Option.bind_eq_some_iff.mp hx
  rcases truthful_run options libName registries actions (lane?_of_record? hr) k x _ hx ho with
    hs | ⟨hcancelled, -⟩
  · exact ⟨r, hr, hs⟩
  · cases hcancelled

/-- **A run keeps track of what a walk has covered**, as long as nobody else adds files: no file is
added from outside, and no other walk waits for texts. -/
theorem tracks_run (options : Options) (libName : String) (registries : Nat → Registry)
    (prior : List Action) {start : World} {k : Nat} {origin : Store} {entries : List String}
    (hstart : start = (initial options libName registries).run env prior)
    (htracks : start.Tracks origin entries k) (later : List Action)
    (hadd : ∀ name text, .add name text ∉ later)
    (hothers : ∀ before after, later = before ++ after → ∀ j x, j ≠ k →
      (start.run env before).walks[j]? = some x → ¬x.IsFetching) :
    (start.run env later).Tracks origin entries k := by
  induction later using List.reverseRec with
  | nil => exact htracks
  | append_singleton later a ih =>
    have hbefore := ih (fun name text hmem => hadd name text (List.mem_append_left _ hmem))
      fun before after hsplit => hothers before (after ++ [a]) (by rw [hsplit, List.append_assoc])
    have hrun : start.run env later =
        (initial options libName registries).run env (prior ++ later) := by
      rw [hstart, run_append]
    have hothers' := hothers later [a] rfl
    rw [run_concat]
    rw [hrun] at hbefore hothers' ⊢
    have hoptions : ((initial options libName registries).run env (prior ++ later)).store.options =
        options := options_run (tidy_initial options libName registries) _
    refine tracks_apply (tidy_run env (tidy_initial options libName registries) _) ?_
      (returned_run options libName registries _) (fun name text e => hadd name text (by simp [e]))
      hothers' hbefore
    rw [hoptions]
    exact fun id l hl => lawful_run options libName registries _ hl

/-- **What a walk returns.** Let a walk be requested in any world of any run, and let nobody else
add files until it has returned. Then it has returned every entry, and only what can be reached from
the entries, each once; each file returned is found in the store with its resolution done, and what
it depends on is returned too, unless the store knew it before and it is no entry. So the walk has
resolved and returned all that can be reached if and only if no file returned depends on a file that
the store knew before and that is no entry. -/
theorem walk_closes (env : Nat → Environment) (options : Options) (libName : String)
    (registries : Nat → Registry) (prior : List Action) {w : World}
    (hw : w = (initial options libName registries).run env prior) (resolver : Nat)
    (entries : List String) {start : World} {k : Nat}
    (hstart : w.walk resolver entries = (start, k)) (later : List Action)
    (hadd : ∀ name text, .add name text ∉ later)
    (hothers : ∀ before after, later = before ++ after → ∀ j x, j ≠ k →
      (start.run env before).walks[j]? = some x → ¬x.IsFetching)
    {s : Store} (hs : s = (start.run env later).store) {x : Walk} {names : List String}
    (hx : (start.run env later).walks[k]? = some x)
    (hreturned : x.outcome = some (.returned names)) :
    names.Nodup ∧ (∀ name ∈ entries, name ∈ names) ∧
    (∀ name ∈ names, s.Reaches entries name ∧
      ∃ r info, s.find? name = some r ∧ r.cell.state = .done ∧ r.dependencies = some info ∧
        ∀ d ∈ info.list, d ∈ names ∨ w.store.contains d = true ∧ d ∉ entries) ∧
    ((∀ name, s.Reaches entries name → name ∈ names ∧ ∃ info, s.Resolved name info) ↔
      ∀ name ∈ names, ∀ d, s.Follows name d → w.store.contains d = true → d ∈ entries) := by
  subst hs
  have htracks : start.Tracks w.store entries k := by
    have hwalk := tracks_walk w resolver entries
    rwa [hstart] at hwalk
  have hrun : start = (initial options libName registries).run env
      (prior ++ [.walk resolver entries]) := by
    rw [run_concat, ← hw]
    exact (congrArg Prod.fst hstart).symm
  obtain ⟨y, hy, hcovers, -, hreturns⟩ :=
    tracks_run options libName registries _ hrun htracks later hadd hothers
  obtain rfl := Option.some.inj (hx.symm.trans hy)
  obtain ⟨rfl, hpending, -⟩ := hreturns names hreturned
  have hdepends : ∀ name info, (start.run env later).store.Resolved name info →
      ∃ r, (start.run env later).store.find? name = some r ∧ r.cell.state = .done ∧
        r.dependencies = some info := by
    rintro name info ⟨id, r, hid, hr, hs⟩
    refine ⟨r, (Store.find?_eq hid).trans hr, by simp [Cell.state, hs], ?_⟩
    have hactions : start.run env later = (initial options libName registries).run env
        (prior ++ [.walk resolver entries] ++ later) := by rw [hrun, ← run_append]
    rw [hactions] at hr
    rw [(lawful_run options libName registries _ (lane?_of_record? hr)).dependencies_eq]
    simp [Cell.result?, hs]
  have hcovered : ∀ name, name ∈ x.visited ∨ name ∈ x.pending → name ∈ x.visited := by
    rintro name (hname | hname)
    · exact hname
    · rw [hpending] at hname
      cases hname
  -- A dependency that the store knew before is returned if and only if it is an entry.
  have hlist : ∀ name ∈ x.visited, ∃ info, (start.run env later).store.Resolved name info ∧
      ∀ d ∈ info.list, d ∈ x.visited ∨ w.store.contains d = true ∧ d ∉ entries := by
    intro name hname
    obtain ⟨info, hinfo, hlist⟩ := hcovers.resolved name hname
    refine ⟨info, hinfo, fun d hd => ?_⟩
    rcases hlist d hd with hd | hd | hd
    · exact .inl hd
    · exact .inl (hcovered d (.inr hd))
    · by_cases hentry : d ∈ entries
      · exact .inl (hcovered d (hcovers.asked d hentry))
      · exact .inr ⟨hd, hentry⟩
  refine ⟨hcovers.once.1, fun name hname => hcovered name (hcovers.asked name hname),
    fun name hname => ⟨hcovers.reached name (.inl hname), ?_⟩,
    fun hall name hname d hd hknown => ?_, fun hnone name hreaches => ?_⟩
  · obtain ⟨info, hinfo, hlist⟩ := hlist name hname
    obtain ⟨r, hr, hdone, hdependencies⟩ := hdepends name info hinfo
    exact ⟨r, info, hr, hdone, hdependencies, hlist⟩
  · obtain ⟨hd', -⟩ := hall d ((hcovers.reached name (.inl hname)).step hd)
    rcases hcovers.fresh d (.inl hd') with hentry | hunknown
    · exact hentry
    · rw [hknown] at hunknown
      cases hunknown
  · have hin : name ∈ x.visited := by
      obtain ⟨entry, hentry, hsteps⟩ := hreaches
      induction hsteps with
      | refl => exact hcovered entry (hcovers.asked entry hentry)
      | @tail parent d _ hd ih =>
        obtain ⟨info, hinfo, hlist⟩ := hlist parent ih
        obtain ⟨info', hinfo', hmem⟩ := hd
        obtain rfl := hinfo.unique hinfo'
        rcases hlist d hmem with hd | ⟨hknown, hnot⟩
        · exact hd
        · exact absurd (hnone parent ih d ⟨info, hinfo, hmem⟩ hknown) hnot
    obtain ⟨info, hinfo, -⟩ := hlist name hin
    exact ⟨hin, info, hinfo⟩

/-- One text imports a file, every other text nothing. -/
def oneImport : Nat → Environment := fun _ =>
  { address := fun _ _ _ => { outcome := .returned "/proj/a.ts" }
    descriptor := fun _ _ => { outcome := .returned ⟨[]⟩ }
    source := fun _ _ => { outcome := .returned "" }
    extract := fun text =>
      .ok (if text = "import './a';" then { imports := ["./a"] } else {}, []) }

/-- The world in which a file that imports another one was added. -/
def oneImporter : World :=
  (initial {} defaultLibName fun _ => {}).run oneImport [.add "/proj/index.ts" "import './a';"]

theorem walk_closes_unknown : ∃ s x,
    s = ((oneImporter.walk 0 ["/proj/index.ts"]).1.run oneImport (List.replicate 16 .tick)).store ∧
    ((oneImporter.walk 0 ["/proj/index.ts"]).1.run oneImport (List.replicate 16 .tick)).walks[0]? =
      some x ∧
    x.outcome = some (.returned ["/proj/index.ts", "/proj/a.ts"]) ∧
    ∀ name, s.Reaches ["/proj/index.ts"] name →
      name ∈ ["/proj/index.ts", "/proj/a.ts"] ∧ ∃ info, s.Resolved name info := by
  have hone : ∀ n ∈ List.range 17, ((oneImporter.walk 0 ["/proj/index.ts"]).1.run oneImport
      (List.replicate n .tick)).walks.length = 1 := by decide
  have hothers : ∀ before after, List.replicate 16 Action.tick = before ++ after → ∀ j x, j ≠ 0 →
      ((oneImporter.walk 0 ["/proj/index.ts"]).1.run oneImport before).walks[j]? = some x →
      ¬x.IsFetching := by
    intro before after hsplit j x hj hx
    obtain ⟨hlength, hbefore, -⟩ := List.replicate_eq_append_iff.mp hsplit
    obtain ⟨hlt, -⟩ := List.getElem?_eq_some_iff.mp hx
    rw [hbefore, hone before.length (List.mem_range.mpr (by omega))] at hlt
    omega
  obtain ⟨-, -, -, hcloses⟩ := walk_closes oneImport {} defaultLibName (fun _ => {})
    [.add "/proj/index.ts" "import './a';"] (w := oneImporter) rfl 0 ["/proj/index.ts"] rfl
    (List.replicate 16 .tick) (by simp) hothers rfl (k := 0) rfl rfl
  exact ⟨_, _, rfl, rfl, rfl, hcloses.mpr fun name _ d _ hknown =>
    show d ∈ ["/proj/index.ts"] from (oneImporter.store.contains_iff d).mp hknown⟩

/-- The file that is imported is known when a walk is requested from the one that imports it. -/
def knownRun : List Action :=
  [.add "/proj/index.ts" "import './a';", .add "/proj/a.ts" "", .walk 0 ["/proj/index.ts"]] ++
    List.replicate 8 .tick

theorem walk_skips_known : ∃ s x,
    s = ((initial {} defaultLibName fun _ => {}).run oneImport knownRun).store ∧
    ((initial {} defaultLibName fun _ => {}).run oneImport knownRun).walks[0]? = some x ∧
    x.outcome = some (.returned ["/proj/index.ts"]) ∧
    s.Reaches ["/proj/index.ts"] "/proj/a.ts" ∧ ¬∃ info, s.Resolved "/proj/a.ts" info := by
  refine ⟨_, _, rfl, rfl, rfl, ⟨_, List.mem_singleton_self _, .single ?_⟩, ?_⟩
  · exact ⟨⟨[("./a", "/proj/a.ts")], ["/proj/a.ts"]⟩, ⟨⟨"/proj/index.ts", 0⟩, _, rfl, rfl, rfl⟩,
      List.mem_singleton_self _⟩
  · rintro ⟨info, id, r, hid, hr, hs⟩
    obtain rfl : id = ⟨"/proj/a.ts", 0⟩ := Option.some.inj (hid.symm.trans rfl)
    cases hr
    cases hs

end DepGraph.World
