import DepGraph.Proofs.Discovery
import DepGraph.Proofs.FailedFiles
import DepGraph.Proofs.Treatment

/-!
# A walk that fails leaves the store consistent

* `World.fails_as_fetch` — a request for a text fails: the walk fails as the first that did, and no
  file of the round is added.
* `World.fails_as_file` — a file fails: the walk fails as one of its round, all of which are in the
  store.
* `World.file_goes_on` — the other files of the round come to what they would have come to, and
  `World.failing_touches_nothing` — they have no part in the failing of the walk.
* `World.failing_walk_leaves_consistent` — **all of this, and no file is refused.**
-/

set_option autoImplicit false

namespace DepGraph.World

variable {env : Nat → Environment} {options : Options} {libName : String}
  {registries : Nat → Registry} {prior later before after : List Action} {start last : World}
  {k : Nat} {x₀ x y z : Walk}

/-! ## A request fails -/

/-- **A request for a text fails**: the walk fails as the first that did, and the store is left as
it was before the round. -/
theorem fails_as_fetch (htidy : start.Tidy) (hx₀ : Pursues env k start x₀) {a : Action}
    (hcalm : Undisturbed env k start (before ++ a :: after)) {origin : Store}
    {entries : List String} (htracks : (start.run env before).Tracks origin entries k) {i : Nat}
    {failure : Ending Cause Empty} (hnone : ∀ j f, ¬(start.run env before).FetchFailed k j f)
    (hfails : (start.run env (before ++ [a])).FetchFailed k i failure)
    (hlast : last = start.run env (before ++ a :: after)) (hx : last.walks[k]? = some x) :
    ∃ y missing name, (start.run env before).walks[k]? = some y ∧ y.phase = .fetching missing ∧
      missing[i]? = some name ∧
      ((env x₀.resolver).source ⟨k, y.round, i⟩ name).outcome.failure? = some failure ∧
      (x.outcome = none ∨ last.Ends k (failure.carry .fetch)) ∧
      (∀ schedule, CarriesOn env k last schedule →
        ∃ n, (last.after env schedule n).Ends k (failure.carry .fetch)) ∧
      (∀ name ∈ missing, last.store.contains name = false) ∧
      ∀ earlier b rest z, before = earlier ++ b :: rest →
        (start.run env (earlier ++ [b])).walks[k]? = some z → z.round = y.round →
        (start.run env earlier).store.Kept last.store := by
  obtain ⟨y, hy, hresolver⟩ := hcalm.take.run htidy hx₀ (P := fun _ x => x.resolver = x₀.resolver)
    rfl fun _ _ _ _ _ _ _ _ hp h => hp.resolver.trans h
  obtain ⟨z, hz, hp⟩ := hcalm.step htidy hy
  obtain ⟨z', hz', hfailed⟩ := hfails
  obtain rfl := Option.some.inj (hz'.symm.trans hz.walk)
  obtain ⟨missing, hphase, hphase', hresolver', hround, hkept, hdoomed⟩ :=
    doomed_of_first hy hz hp (fun j f hf => hnone j f ⟨y, hy.walk, hf⟩) hfailed
  obtain ⟨name, hname, hanswer⟩ := hz.answer hphase' hfailed
  rw [hresolver', hresolver, hround] at hanswer
  -- From then on the walk is bound to fail, and no file is added.
  have hsplit : before ++ a :: after = (before ++ [a]) ++ after := by simp
  obtain ⟨x', hx', hkept', hdoomed'⟩ := (hsplit ▸ hcalm).drop.run (tidy_run env htidy _) hz
    (P := fun w x => (start.run env before).store.Kept w.store ∧ Doomed w k failure x)
    ⟨hkept, hdoomed⟩ fun _ _ _ _ _ _ hu _ hp h =>
      ⟨h.1.trans (h.2.passes hu hp).1, (h.2.passes hu hp).2⟩
  rw [← run_append, ← hsplit, ← hlast] at hx' hkept' hdoomed'
  obtain rfl := Option.some.inj (hx.symm.trans hx'.walk)
  refine ⟨y, missing, name, hy.walk, hphase, hname, hanswer,
    ?_,
    fun schedule hcarries => hdoomed'.ends hx' (hlast ▸ tidy_run env htidy _) hcarries,
    fun other hother => ?_, fun earlier b rest v hbefore hv hround' => ?_⟩
  · cases hout : x.outcome with
    | none => exact .inl rfl
    | some ending =>
      obtain rfl := hdoomed'.outcome hx' hout
      exact .inr ⟨x, hx, hout⟩
  · obtain ⟨y', hy', -, hattends, -⟩ := htracks
    obtain rfl := Option.some.inj (hy.walk.symm.trans hy')
    rw [Walk.Attends, hphase] at hattends
    exact (hkept'.contains other).trans (hattends.2 other hother).2
  · subst hbefore
    exact (kept_since htidy hx₀ hcalm.take hv hy.walk hround' hphase).trans hkept'

/-! ## A file fails -/

variable {waiters : List (FileId × Nat)} {tally : Tally Fault Dependencies}

/-- **A file of a round fails**: the walk fails as one of them. -/
theorem fails_as_file (hstart : start = (initial options libName registries).run env prior)
    (hx₀ : Pursues env k start x₀) (hlate : Latecomer start x₀)
    (hcalm : Undisturbed env k start (before ++ after))
    (hy : (start.run env before).walks[k]? = some y)
    (hphase : y.phase = .resolving waiters tally) (hlast : last = start.run env (before ++ after))
    (hx : last.walks[k]? = some x) {p : FileId × Nat} (hp : p ∈ waiters)
    {ending : Ending Fault Dependencies} {failure : Ending Fault Empty}
    (hends : last.FileEnds p.1 ending) (hfails : ending.failure? = some failure) :
    (x.outcome = none ∨ last.FailedAsOneOf k waiters) ∧
      ∀ schedule, CarriesOn env k last schedule →
        ∃ n, (last.after env schedule n).FailedAsOneOf k waiters := by
  refine ⟨?_, fun schedule hcarries =>
    ends_of_failed hstart hx₀ hlate hcalm hy hphase hlast hcarries hp hends hfails⟩
  obtain ⟨x', hx', hfate⟩ := fate_run hstart hx₀ hlate hcalm hy hphase
  rw [← hlast] at hx' hfate
  obtain rfl := Option.some.inj (hx.symm.trans hx'.walk)
  cases hfate with
  | waits phase => exact .inl (hx'.silent (by simp [phase]))
  | failed mem ends failing _ outcome => exact .inr ⟨_, mem, _, _, ends, failing, x, hx, outcome⟩
  | passed all =>
    obtain ⟨info, hinfo⟩ := all p hp
    rw [← hinfo.unique hends] at hfails
    cases hfails

/-- **The other files go on**: each comes to an end, and what becomes of it is up to how it is
treated alone. -/
theorem file_goes_on (hstart : start = (initial options libName registries).run env prior)
    (hy : (start.run env before).walks[k]? = some y)
    (hphase : y.phase = .resolving waiters tally) (hlast : last = start.run env (before ++ after))
    {p : FileId × Nat} (hp : p ∈ waiters) :
    (∀ schedule, Fair env last schedule p.1 → ∃ ending, ResolvesTo env last schedule p.1 ending) ∧
      ∀ more, UpToTreatment env (initial options libName registries)
        (prior ++ (before ++ after ++ more)) p.1 := by
  have htidy₀ := tidy_initial options libName registries
  have htidy : (start.run env before).Tidy := by
    rw [hstart, ← run_append]
    exact tidy_run env htidy₀ _
  obtain ⟨place, hplace⟩ := List.mem_iff_getElem?.mp hp
  have hlistens := (htidy.walks k y hy).waiters hphase hplace
  have hfull : ∀ more, (start.run env before).run env more =
      (initial options libName registries).run env (prior ++ (before ++ more)) := by
    intro more
    rw [hstart, ← run_append, ← run_append]
  refine ⟨fun schedule hfair => ?_, fun more => ?_⟩
  · have hthere := (grows_run env htidy after).listens hlistens
    rw [hfull] at hthere
    obtain ⟨r, v, hr, hs, -⟩ := request_started
      (fun l hl => lawful_run options libName registries _ hl) hthere
    have hlast' : last =
        (initial options libName registries).run env (prior ++ (before ++ after)) := by
      rw [hlast, run_append, hfull]
    rw [hlast'] at hfair ⊢
    obtain ⟨ending, hends, -⟩ := hears_run options libName registries _ hr hs hfair
    exact ⟨ending, hends⟩
  · have hthere := (grows_run env htidy (after ++ more)).listens hlistens
    rw [hfull, ← List.append_assoc before] at hthere
    obtain ⟨r, v, hr, -⟩ := hthere
    exact upToTreatment rfl _ hr

/-- **When a walk fails**, neither the store nor any file has a part in it. -/
theorem failing_touches_nothing (htidy : start.Tidy) (hx₀ : Pursues env k start x₀) {a : Action}
    (hcalm : Undisturbed env k start (before ++ a :: after))
    (hy : (start.run env before).walks[k]? = some y) (hsilent : y.outcome = none)
    {ending : Ending WalkFault (List String)}
    (hends : (start.run env (before ++ [a])).Ends k ending)
    (hfailed : ∀ names, ending ≠ .returned names) :
    (start.run env (before ++ [a])).store = (start.run env before).store ∧
      ∀ id, (start.run env (before ++ [a])).lane? id = (start.run env before).lane? id := by
  obtain ⟨z, hz, hp⟩ := hcalm.step htidy (hcalm.take.pursues_of htidy hx₀ hy)
  obtain ⟨z', hz', hout⟩ := hends
  obtain rfl := Option.some.inj (hz'.symm.trans hz.walk)
  have hopens : ∀ {w : World} {next : Walk}, w.Opens next z' → False := by
    intro w next opens
    obtain ⟨names, hnames⟩ := opens.outcome ending hout
    exact hfailed names hnames
  have hsame : z'.outcome = y.outcome → False := by
    intro hsame
    rw [hsame, hsilent] at hout
    cases hout
  cases hp with
  | fetchFails _ _ store lanes => exact ⟨store, lanes⟩
  | fileFails _ _ store lanes => exact ⟨store, lanes⟩
  | begins _ _ opens => exact (hopens opens).elim
  | continues _ _ _ _ _ opens => exact (hopens opens).elim
  | stays => exact (hsame rfl).elim
  | fetches => exact (hsame rfl).elim
  | resolves => exact (hsame rfl).elim
  | hears => exact (hsame rfl).elim

/-! ## Both -/

/-- **A walk that fails leaves the store consistent.** Let a walk be requested in any world of any
run, with a resolver that reads every text, and let nobody else add files, cancel the walk or make
it give up waiting, in any run from then on.

If a request for a text fails, the first of the walk to fail, then so does the walk, with the
failure that was the answer to this request, and no file is added: not those of the round, whatever
came of their own requests, nor any other since the round began.

Once all texts of a round have come, its files are in the store, and stay there. If one of them
fails, so does the walk, with the failure of a file of the round. The others come to their ends all
the same, and what they come to is up to how they are treated: it is what they come to where nobody
else is asked for, and wherever they are treated so, whatever everybody else is answered. When the
walk fails, no file has a part in it.

In no round is the walk refused a file. -/
theorem failing_walk_leaves_consistent (env : Nat → Environment) (options : Options)
    (libName : String) (registries : Nat → Registry) (prior : List Action) {w : World}
    (hw : w = (initial options libName registries).run env prior) (resolver : Nat)
    (hreads : ∀ text, ∃ result, (env resolver).extract text = .ok result) (entries : List String)
    {start : World} {k : Nat} (hstart : w.walk resolver entries = (start, k)) (later : List Action)
    (hcalm : Undisturbed env k start later) {last : World} (hlast : last = start.run env later)
    {x : Walk} (hx : last.walks[k]? = some x) :
    (∀ before a after i failure, later = before ++ a :: after →
      (∀ j f, ¬(start.run env before).FetchFailed k j f) →
      (start.run env (before ++ [a])).FetchFailed k i failure →
      ∃ y missing name, (start.run env before).walks[k]? = some y ∧ y.phase = .fetching missing ∧
        missing[i]? = some name ∧
        ((env resolver).source ⟨k, y.round, i⟩ name).outcome.failure? = some failure ∧
        (x.outcome = none ∨ last.Ends k (failure.carry .fetch)) ∧
        (∀ schedule, CarriesOn env k last schedule →
          ∃ n, (last.after env schedule n).Ends k (failure.carry .fetch)) ∧
        (∀ name ∈ missing, last.store.contains name = false) ∧
        ∀ earlier b rest z, before = earlier ++ b :: rest →
          (start.run env (earlier ++ [b])).walks[k]? = some z → z.round = y.round →
          (start.run env earlier).store.Kept last.store) ∧
    (∀ before after y waiters tally, later = before ++ after →
      (start.run env before).walks[k]? = some y → y.phase = .resolving waiters tally →
      waiters.map (fun p => p.1.name) = y.pending ∧
      (∀ name ∈ y.pending, last.store.contains name = true) ∧
      ∀ p ∈ waiters,
        (∀ ending failure, last.FileEnds p.1 ending → ending.failure? = some failure →
          (x.outcome = none ∨ last.FailedAsOneOf k waiters) ∧
          ∀ schedule, CarriesOn env k last schedule →
            ∃ n, (last.after env schedule n).FailedAsOneOf k waiters) ∧
        (∀ schedule, Fair env last schedule p.1 →
          ∃ ending, ResolvesTo env last schedule p.1 ending) ∧
        ∀ more, UpToTreatment env (initial options libName registries)
          (prior ++ .walk resolver entries :: (later ++ more)) p.1) ∧
    (∀ before a after y ending, later = before ++ a :: after →
      (start.run env before).walks[k]? = some y → y.outcome = none →
      (start.run env (before ++ [a])).Ends k ending → (∀ names, ending ≠ .returned names) →
      (start.run env (before ++ [a])).store = (start.run env before).store ∧
        ∀ id, (start.run env (before ++ [a])).lane? id = (start.run env before).lane? id) ∧
    ∀ refusal, x.outcome ≠ some (.raised (.refused refusal)) := by
  have hrun : start = (initial options libName registries).run env
      (prior ++ [.walk resolver entries]) := by
    rw [run_concat, ← hw]
    exact (congrArg Prod.fst hstart).symm
  have htidy : start.Tidy := hrun ▸ tidy_run env (tidy_initial options libName registries) _
  obtain rfl : w.walks.length = k := congrArg Prod.snd hstart
  have hx₀ := pursues_walk (hw ▸ unborn_run options libName registries prior le_rfl) hreads entries
  rw [hstart] at hx₀
  have hlate : Latecomer start { resolver, pending := Dependencies.distinct entries } := nofun
  have htracks : ∀ {before after}, later = before ++ after →
      (start.run env before).Tracks w.store entries w.walks.length := by
    intro before after hsplit
    have hwalk := tracks_walk w resolver entries
    rw [hstart] at hwalk
    refine tracks_run options libName registries _ hrun hwalk before ?_ ?_
    · exact (hsplit ▸ hcalm).take.add
    · exact (hsplit ▸ hcalm).take.others
  refine ⟨fun before a after i failure hsplit hnone hfails => ?_,
    fun before after y waiters tally hsplit hy hphase => ?_,
    fun before a after y ending hsplit hy hsilent hends hfailed => ?_, fun refusal hrefused => ?_⟩
  · exact fails_as_fetch htidy hx₀ (hsplit ▸ hcalm) (htracks hsplit) hnone hfails
      (hsplit ▸ hlast) hx
  · obtain ⟨y', hy', -, hattends, -⟩ := htracks hsplit
    obtain rfl := Option.some.inj (hy.symm.trans hy')
    rw [Walk.Attends, hphase] at hattends
    obtain ⟨hnames, hcurrent, -⟩ := hattends
    subst hsplit
    refine ⟨hnames, fun name hname => ?_, fun p hp => ?_⟩
    · rw [← hnames] at hname
      obtain ⟨p, hp, rfl⟩ := List.mem_map.mp hname
      rw [hlast, run_append]
      exact contains_run env (tidy_run env htidy before) after
        (Store.contains_of_current? (hcurrent p hp))
    · obtain ⟨hends, htreatment⟩ := file_goes_on hrun hy hphase hlast hp
      refine ⟨fun ending failure hfile hfails =>
        fails_as_file hrun hx₀ hlate hcalm hy hphase hlast hx hp hfile hfails, hends,
        fun more => ?_⟩
      have hmore := htreatment more
      rwa [List.append_assoc, List.singleton_append] at hmore
  · exact failing_touches_nothing htidy hx₀ (hsplit ▸ hcalm) hy hsilent hends hfailed
  · exact (hcalm.pursues_of htidy hx₀ (hlast ▸ hx)).unrefused refusal hrefused

/-- Nobody disturbs the only walk there is, as long as time passes and nothing else happens. -/
theorem undisturbed_walking (env : Nat → Environment) (options : Options) (libName : String)
    (registries : Nat → Registry) (resolver : Nat) (entries : List String) {later : List Action}
    (hlater : ∀ a ∈ later, a.IsPassing) :
    Undisturbed env 0 (walking options libName registries resolver entries) later := by
  refine ⟨fun name text hmem => ?_, fun hmem => ?_, fun first rest hsplit j y hj hy => ?_,
    fun first rest id n place hsplit => ?_⟩
  · rcases hlater _ hmem with hmem | ⟨gate, hmem⟩ <;> cases hmem
  · rcases hlater _ hmem with hmem | ⟨gate, hmem⟩ <;> cases hmem
  · have hnone := no_other_walk env options libName registries resolver entries
      (fun a ha => hlater a (hsplit ▸ List.mem_append_left _ ha)) hj
    cases hnone.symm.trans hy
  · rcases hlater (.giveUp id n) (by rw [hsplit]; simp) with hmem | ⟨gate, hmem⟩ <;> cases hmem

/-- One text cannot be fetched, and another one imports what cannot be found. -/
def unreliable : Nat → Environment := fun _ =>
  { address := fun _ _ _ => { outcome := .raised ⟨"LookupError", "lost"⟩ }
    descriptor := fun _ _ => { outcome := .returned ⟨[]⟩ }
    source := fun _ name =>
      if name = "/proj/gone.ts" then { outcome := .raised ⟨"OSError", "gone"⟩ }
      else { outcome := .returned (if name = "/proj/index.ts" then "import './lost';" else "") }
    extract := fun text =>
      .ok (if text = "import './lost';" then { imports := ["./lost"] } else {}, []) }

/-- A walk is requested from the file that imports, and from another one. -/
def importing (other : String) : World :=
  walking {} defaultLibName (fun _ => {}) 0 ["/proj/index.ts", other]

/-- Where one text is gone, no file of the round is added; where one file cannot be resolved, the
other one is in the store, and what becomes of it is up to its treatment. -/
theorem failing_walk_leaves_consistent_unreliable :
    (∃ last, last = (importing "/proj/gone.ts").run unreliable (List.replicate 6 .tick) ∧
      last.Ends 0 (.raised (.fetch ⟨"OSError", "gone"⟩)) ∧
      ∀ name ∈ ["/proj/index.ts", "/proj/gone.ts"], last.store.contains name = false) ∧
    ∃ last, last = (importing "/proj/a.ts").run unreliable (List.replicate 16 .tick) ∧
      last.FailedAsOneOf 0 [(⟨"/proj/index.ts", 0⟩, 0), (⟨"/proj/a.ts", 0⟩, 0)] ∧
      last.store.contains "/proj/a.ts" = true ∧
      UpToTreatment unreliable (initial {} defaultLibName fun _ => {})
        (.walk 0 ["/proj/index.ts", "/proj/a.ts"] :: List.replicate 16 .tick) ⟨"/proj/a.ts", 0⟩ := by
  have hcalm : ∀ other n,
      Undisturbed unreliable 0 (importing other) (List.replicate n .tick) := fun other n =>
    undisturbed_walking unreliable {} defaultLibName (fun _ => {}) 0 _ fun a ha =>
      .inl (List.eq_of_mem_replicate ha)
  refine ⟨⟨_, rfl, ?_⟩, _, rfl, ?_⟩
  · have hover : ((importing "/proj/gone.ts").run unreliable (List.replicate 6 .tick)).walks[0]?.bind
        Walk.outcome = some (.raised (.fetch ⟨"OSError", "gone"⟩)) := by decide +kernel
    obtain ⟨x, hx, hout⟩ := Option.bind_eq_some_iff.mp hover
    obtain ⟨hfetch, -⟩ := failing_walk_leaves_consistent unreliable {} defaultLibName (fun _ => {}) []
      rfl 0 (fun _ => ⟨_, rfl⟩) ["/proj/index.ts", "/proj/gone.ts"] rfl (List.replicate 6 .tick)
      (hcalm "/proj/gone.ts" 6) rfl hx
    -- The request for the text that is gone fails in its turn, and no other did before.
    have hnone : ∀ j f, ¬((importing "/proj/gone.ts").run unreliable
        (List.replicate 2 .tick)).FetchFailed 0 j f := by
      rintro j f ⟨z, hz, e, hm, he⟩
      have hall : ((importing "/proj/gone.ts").run unreliable (List.replicate 2 .tick)).walks[0]?.map
          (fun z => z.fetches.members.map fun m => m.ending?.bind Ending.failure?) =
          some [none, none] := by decide +kernel
      rw [hz, Option.map_some, Option.some.injEq] at hall
      have hj := congrArg (·[j]?) hall
      simp only [List.getElem?_map, hm, Option.map_some, Member.ending?, Option.bind_some, he] at hj
      rcases j with _ | _ | j <;> cases hj
    obtain ⟨y, missing, name, hy, hphase, -, -, hends, -, hmissing, -⟩ :=
      hfetch (List.replicate 2 .tick) .tick (List.replicate 3 .tick) 1 (.raised ⟨"OSError", "gone"⟩)
        rfl hnone ⟨_, rfl, _, rfl, rfl⟩
    have hfetching : ((importing "/proj/gone.ts").run unreliable
        (List.replicate 2 .tick)).walks[0]?.map Walk.phase =
        some (.fetching ["/proj/index.ts", "/proj/gone.ts"]) := rfl
    have hyphase := (congrArg (Option.map Walk.phase) hy).symm.trans hfetching
    rw [Option.map_some, hphase, Option.some.injEq, Phase.fetching.injEq] at hyphase
    exact ⟨hends.resolve_left (by simp [hout]), hyphase ▸ hmissing⟩
  · have hover : ((importing "/proj/a.ts").run unreliable (List.replicate 16 .tick)).walks[0]?.bind
        Walk.outcome ≠ none := by decide +kernel
    obtain ⟨o, hsome⟩ := Option.ne_none_iff_exists'.mp hover
    obtain ⟨x, hx, hout⟩ := Option.bind_eq_some_iff.mp hsome
    obtain ⟨-, hfile, -⟩ := failing_walk_leaves_consistent unreliable {} defaultLibName (fun _ => {}) []
      rfl 0 (fun _ => ⟨_, rfl⟩) ["/proj/index.ts", "/proj/a.ts"] rfl (List.replicate 16 .tick)
      (hcalm "/proj/a.ts" 16) rfl hx
    obtain ⟨-, hthere, hfiles⟩ := hfile (List.replicate 6 .tick) (List.replicate 10 .tick) _
      [(⟨"/proj/index.ts", 0⟩, 0), (⟨"/proj/a.ts", 0⟩, 0)] _ rfl rfl rfl
    obtain ⟨hfails, -⟩ := hfiles (⟨"/proj/index.ts", 0⟩, 0) (by simp)
    obtain ⟨-, -, htreatment⟩ := hfiles (⟨"/proj/a.ts", 0⟩, 0) (by simp)
    obtain ⟨hends, -⟩ := hfails _ _ ⟨_, rfl, rfl⟩ rfl
    exact ⟨hends.resolve_left (by simp [hout]), hthere "/proj/a.ts" (by decide), htreatment []⟩

end DepGraph.World
