import DepGraph.Proofs.Onward

/-!
# Walks end

A walk comes to an end on every finite graph, cyclic or not: a round is made of names that are new,
and there are only so many of them.

* `Store.Reaches.mem` — what can be reached lies in every set that is closed under dependencies.
* `World.frugal_after` — along a schedule a walk comes to new names in every round, and asks for
  them only.
* `World.Frugal.bounded` — among finitely many names there are only so many rounds and requests.
* `World.walk_ends` — **the walk ends, within as many rounds and requests as there are unknown
  names**.
-/

set_option autoImplicit false

namespace DepGraph

/-- What can be reached from entries of a set that is closed under dependencies belongs to it. -/
theorem Store.Reaches.mem {s : Store} {entries : List String} {name : String} {U : Finset String}
    (h : s.Reaches entries name) (hentries : ∀ entry ∈ entries, entry ∈ U)
    (hclosed : ∀ name ∈ U, ∀ info, s.Resolved name info → ∀ d ∈ info.list, d ∈ U) : name ∈ U := by
  obtain ⟨entry, hentry, hsteps⟩ := h
  induction hsteps with
  | refl => exact hentries entry hentry
  | tail _ hfollows ih =>
    obtain ⟨info, hresolved, hmem⟩ := hfollows
    exact hclosed _ ih info hresolved _ hmem

namespace World

variable {env : Nat → Environment} {options : Options} {libName : String}
  {registries : Nat → Registry} {prior : List Action} {start : World} {k resolver : Nat} {x : Walk}
  {origin : Store} {entries earlier : List String} {schedule : Nat → Action}

theorem run_after (hstart : start = (initial options libName registries).run env prior) (n : Nat) :
    start.after env schedule n =
      (initial options libName registries).run env (prior ++ (List.range n).map schedule) := by
  rw [after_eq_run, hstart, run_append]

/-- Along a schedule that leaves it alone, a walk is kept track of. -/
theorem tracks_after (hstart : start = (initial options libName registries).run env prior)
    (hcarries : CarriesOn env k start schedule) (h : start.Tracks origin entries k) (n : Nat) :
    (start.after env schedule n).Tracks origin entries k := by
  rw [after_eq_run]
  exact tracks_run options libName registries prior hstart h _ (hcarries.undisturbed n).add
    (hcarries.undisturbed n).others

/-- **Along a schedule** that leaves it alone, a walk comes to new names in every round, and asks
for them only. -/
theorem frugal_after (hstart : start = (initial options libName registries).run env prior)
    (hcarries : CarriesOn env k start schedule)
    (halone : ∀ n j y, j ≠ k → (start.after env schedule n).walks[j]? = some y → y.fetches.Settled)
    (hx : Pursues env k start x) (htracks : start.Tracks origin entries k)
    (h : start.Frugal (env resolver) origin earlier resolver k) (n : Nat) :
    (start.after env schedule n).Frugal (env resolver) origin earlier resolver k := by
  have htidy : start.Tidy := hstart ▸ tidy_run env (tidy_initial options libName registries) prior
  induction n with
  | zero => exact h
  | succ n ih =>
    obtain ⟨y, hy, -⟩ := hcarries.pursues htidy (Nat.zero_le n) hx
    refine frugal_apply ih (tracks_after hstart hcarries htracks n) hy (fun id r hr => ?_)
      (halone n) (hcarries.cancel n) fun name hname => ?_
    · rw [run_after hstart] at hr
      exact asks_nothing_run options libName registries _ hr
    · exact contains_run env (tidy_after htidy n) [schedule n] hname

/-- A walk that comes to names of a finite set only begins no more rounds, and asks for no more
texts, than there are unknown names in it. -/
theorem Frugal.bounded {env : Environment} (h : start.Frugal env origin earlier resolver k)
    (htracks : start.Tracks origin entries k) {names unknown : Finset String}
    (hunknown : unknown = names.filter fun name => origin.contains name = false)
    (hentries : ∀ entry ∈ entries, entry ∈ names)
    (hclosed : ∀ name ∈ names, ∀ info, start.store.Resolved name info →
      ∀ d ∈ info.list, d ∈ names) :
    ∃ x, start.walks[k]? = some x ∧ x.round ≤ 1 + unknown.card ∧ x.begun ≤ 1 + unknown.card ∧
      ∃ asked, start.asked = earlier ++ asked ∧ asked.length ≤ unknown.card ∧ asked.Nodup ∧
        ∀ name ∈ asked, name ∈ unknown := by
  obtain ⟨since, x, hprogress, hasks, -⟩ := h
  obtain ⟨y, hy, hcovers, -⟩ := htracks
  obtain rfl := Option.some.inj (hprogress.here.symm.trans hy)
  have hinside : ∀ name, name ∈ x.visited ∨ name ∈ x.pending → name ∈ names := fun name hname =>
    (hcovers.reached name hname).mem hentries hclosed
  have hseeks := hasks.seeks
  subst hunknown
  exact ⟨x, hy, hprogress.advances.round_le hcovers.once hinside,
    hprogress.advances.begun_le hcovers.once hinside, since, hprogress.asked,
    hseeks.length_le hinside, hseeks.once, fun name hname => Finset.mem_filter.mpr
      ⟨hinside name (hseeks.reached name hname), hseeks.unknown name hname⟩⟩

/-- A walk that waits for files waits for some. -/
theorem Frugal.waiters_ne_nil {env : Environment} (h : start.Frugal env origin earlier resolver k)
    (htracks : start.Tracks origin entries k) (hx : start.walks[k]? = some x)
    {waiters : List (FileId × Nat)} {tally : Tally Fault Dependencies}
    (hphase : x.phase = .resolving waiters tally) : waiters ≠ [] := by
  obtain ⟨since, y, hprogress, -, hbusy⟩ := h
  obtain rfl := Option.some.inj (hx.symm.trans hprogress.here)
  obtain ⟨y, hy, -, hattends, -⟩ := htracks
  obtain rfl := Option.some.inj (hx.symm.trans hy)
  rw [Walk.Attends, hphase] at hattends
  rintro rfl
  simpa [hphase] using hbusy hattends.1.symm

/-- **A walk on its own ends.** Let a walk be requested in any world of any run, with a resolver
that reads every text. From then on let jobs be carried out again and again, and whatever waits at a
gate be answered some time; let nobody else add files or ask for texts, and let nobody cancel the
walk or make it give up waiting. Let finitely many names contain the entries and, with each name,
all that the file of this name is resolved to depend on.

Then the walk ends, for good. With `n` of these names unknown to the store when the walk was
requested, it begins no more than `1 + n` rounds, and no more than `n` texts are asked for: those of
unknown names, none of them twice. -/
theorem walk_ends (env : Nat → Environment) (options : Options) (libName : String)
    (registries : Nat → Registry) (prior : List Action) {w : World}
    (hw : w = (initial options libName registries).run env prior) (resolver : Nat)
    (hreads : ∀ text, ∃ result, (env resolver).extract text = .ok result) (entries : List String)
    {start : World} {k : Nat} (hstart : w.walk resolver entries = (start, k))
    (schedule : Nat → Action) (hcarries : CarriesOn env k start schedule)
    (halone : ∀ n j y, j ≠ k → (start.after env schedule n).walks[j]? = some y → y.fetches.Settled)
    (hanswered : Answered env start schedule) (names : Finset String)
    (hentries : ∀ entry ∈ entries, entry ∈ names)
    (hclosed : ∀ n, ∀ name ∈ names, ∀ info,
      (start.after env schedule n).store.Resolved name info → ∀ d ∈ info.list, d ∈ names)
    {unknown : Finset String}
    (hunknown : unknown = names.filter fun name => w.store.contains name = false) :
    (∃ n ending, ∀ m, n ≤ m → (start.after env schedule m).Ends k ending) ∧
    ∀ n, (∃ x, (start.after env schedule n).walks[k]? = some x ∧ x.begun ≤ 1 + unknown.card) ∧
      ∃ asked, (start.after env schedule n).asked = w.asked ++ asked ∧
        asked.length ≤ unknown.card ∧ asked.Nodup ∧ ∀ name ∈ asked, name ∈ unknown := by
  have hrun : start = (initial options libName registries).run env
      (prior ++ [.walk resolver entries]) := by
    rw [run_concat, ← hw]
    exact (congrArg Prod.fst hstart).symm
  have htidy : start.Tidy := hrun ▸ tidy_run env (tidy_initial options libName registries) _
  obtain rfl : w.walks.length = k := congrArg Prod.snd hstart
  have hx₀ := pursues_walk (hw ▸ unborn_run options libName registries prior le_rfl) hreads entries
  have htracks := tracks_walk w resolver entries
  have hfrugal : (w.walk resolver entries).1.Frugal (env resolver) w.store w.asked resolver
      w.walks.length := frugal_walk w resolver entries
  rw [hstart] at hx₀ htracks hfrugal
  have hfrugal' := frugal_after hrun hcarries halone hx₀ htracks hfrugal
  have htracks' := tracks_after hrun hcarries htracks
  have hbounded := fun n => (hfrugal' n).bounded (htracks' n) hunknown hentries (hclosed n)
  refine ⟨ends_of_rank_le hrun hcarries hanswered
    (fun n y waiters tally hy => (hfrugal' n).waiters_ne_nil (htracks' n) hy.walk)
    (3 * (1 + unknown.card) + 3) (fun n y hy => ?_) (n := 0) hx₀, fun n => ?_⟩
  · obtain ⟨z, hz, hround, -⟩ := hbounded n
    obtain rfl := Option.some.inj (hy.walk.symm.trans hz)
    have hrank := y.rank_le
    omega
  · obtain ⟨x, hx, -, hbegun, hasked⟩ := hbounded n
    exact ⟨⟨x, hx, hbegun⟩, hasked⟩

/-- Every text imports one file, itself included. It comes when the gate is opened. -/
def selfImporter : Nat → Environment := fun _ =>
  { address := fun _ _ _ => { outcome := .returned "/a.ts" }
    descriptor := fun _ _ => { outcome := .returned ⟨[]⟩ }
    source := fun _ _ => { gates := ["net"], outcome := .returned "import './a';" }
    extract := fun _ => .ok ({ imports := ["./a"] }, []) }

/-- Where nothing is due, nothing happens as jobs are carried out. -/
theorem after_of_rest {w : World} {n : Nat} (hready : (w.after env schedule n).loop.ready = [])
    (hticks : ∀ m, n ≤ m → schedule m = .tick) {m : Nat} (hm : n ≤ m) :
    w.after env schedule m = w.after env schedule n := by
  induction m, hm using Nat.le_induction with
  | base => rfl
  | succ m hm ih =>
    rw [after, hticks m hm, ih]
    simp [apply, tick, Loop.next?, hready]

theorem walk_ends_cyclic :
    (∃ n ending, ∀ m, n ≤ m → ((walking {} defaultLibName (fun _ => {}) 0 ["/i.ts"]).after
      selfImporter (openingAt 3 "net") m).Ends 0 ending) ∧
    ∀ n, (∃ x, ((walking {} defaultLibName (fun _ => {}) 0 ["/i.ts"]).after selfImporter
        (openingAt 3 "net") n).walks[0]? = some x ∧ x.begun ≤ 3) ∧
      ((walking {} defaultLibName (fun _ => {}) 0 ["/i.ts"]).after selfImporter
        (openingAt 3 "net") n).asked.length ≤ 2 := by
  have hpassing : ∀ n, ∀ a ∈ (List.range n).map (openingAt 3 "net"), a.IsPassing := by
    intro n a ha
    obtain ⟨m, -, rfl⟩ := List.mem_map.mp ha
    unfold openingAt
    split
    · exact .inr ⟨_, rfl⟩
    · exact .inl rfl
  have hticks : ∀ m, 4 ≤ m → openingAt 3 "net" m = .tick := fun m hm => if_neg (by omega)
  have hcarries : CarriesOn selfImporter 0 (walking {} defaultLibName (fun _ => {}) 0 ["/i.ts"])
      (openingAt 3 "net") :=
    ⟨fun n => ⟨n + 4, by omega, hticks _ (by omega)⟩, fun n =>
      undisturbed_walking selfImporter {} defaultLibName (fun _ => {}) 0 _ (hpassing n)⟩
  have hanswered : Answered selfImporter (walking {} defaultLibName (fun _ => {}) 0 ["/i.ts"])
      (openingAt 3 "net") := by
    have hready : ((walking {} defaultLibName (fun _ => {}) 0 ["/i.ts"]).after selfImporter
        (openingAt 3 "net") 40).loop.ready = [] := by decide +kernel
    have hwaiting : ((walking {} defaultLibName (fun _ => {}) 0 ["/i.ts"]).after selfImporter
        (openingAt 3 "net") 40).loop.waiting = [] := by decide +kernel
    intro n gate job _
    refine ⟨n + 40, by omega, ?_⟩
    rw [after_of_rest hready (fun m hm => hticks m (by omega)) (by omega), hwaiting]
    exact List.not_mem_nil
  have hgives : (selfImporter 0).Gives
      ⟨fun _ _ => .returned "/a.ts", fun _ => .returned ⟨[]⟩⟩ := ⟨fun _ _ _ => rfl, fun _ _ => rfl⟩
  have hclosed : ∀ n, ∀ name ∈ ({"/i.ts", "/a.ts"} : Finset String), ∀ info,
      ((walking {} defaultLibName (fun _ => {}) 0 ["/i.ts"]).after selfImporter
        (openingAt 3 "net") n).store.Resolved name info →
      ∀ d ∈ info.list, d ∈ ({"/i.ts", "/a.ts"} : Finset String) := by
    intro n name _ info hresolved
    rw [after_eq_run] at hresolved
    obtain ⟨source, hsource⟩ : ∃ source : String → Ending Cause String,
        source = fun _ => .returned "import './a';" := ⟨_, rfl⟩
    obtain ⟨x, hcharts⟩ := charts_run selfImporter {} defaultLibName (fun _ => {}) ["/i.ts"] hgives
      (fun _ name => (congrFun hsource name).symm) rfl (hpassing n)
    have hgraph := graph_of_resolved selfImporter {} defaultLibName (fun _ => {}) 0 ["/i.ts"] hgives
      (hpassing n) hcharts.sourced hresolved
    subst hsource
    have hlist : some ["/a.ts"] = some info.list :=
      congrArg (Option.map Dependencies.list) hgraph
    rintro d hd
    rw [← Option.some.inj hlist, List.mem_singleton] at hd
    simp [hd]
  have hstart : (initial {} defaultLibName fun _ => {}).walk 0 ["/i.ts"] =
      (walking {} defaultLibName (fun _ => {}) 0 ["/i.ts"], 0) := rfl
  have hunknown : ({"/i.ts", "/a.ts"} : Finset String) = ({"/i.ts", "/a.ts"} : Finset String).filter
      fun name => (initial {} defaultLibName fun _ => {}).store.contains name = false := by decide
  obtain ⟨hends, hbounds⟩ := walk_ends selfImporter {} defaultLibName (fun _ => {}) [] rfl 0
    (fun _ => ⟨_, rfl⟩) ["/i.ts"] hstart (openingAt 3 "net") hcarries
    (fun n j y hj hy => by
      rw [after_eq_run] at hy
      cases (no_other_walk selfImporter {} defaultLibName (fun _ => {}) 0 ["/i.ts"] (hpassing n)
        hj).symm.trans hy) hanswered {"/i.ts", "/a.ts"} (by simp) hclosed hunknown
  refine ⟨hends, fun n => ?_⟩
  obtain ⟨hbegun, asked, hasked, hlength, -⟩ := hbounds n
  exact ⟨hbegun, (congrArg List.length hasked).trans_le hlength⟩

end World

end DepGraph
