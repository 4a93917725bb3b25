import DepGraph.Proofs.FailedFetches
import DepGraph.Proofs.Wakeups

/-!
# A file of a round fails

* `World.FileEnds` — the resolution of a file has ended so.
* `World.told_truly` — a walk that nobody disturbs is told how its files have ended, nothing else.
* `World.Fate` — what has become of a walk that waited for certain files: `World.fate_run`.
* `World.ends_of_failed` — if one of the files has failed, the walk fails as one of them.
-/

set_option autoImplicit false

namespace DepGraph

namespace World

variable {env : Nat → Environment} {w w' start : World} {k : Nat} {x y : Walk} {loop : Loop Job}
  {id : FileId} {waiters : List (FileId × Nat)} {tally : Tally Fault Dependencies}

/-- The resolution of a file has ended so. -/
def FileEnds (w : World) (id : FileId) (ending : Ending Fault Dependencies) : Prop :=
  ∃ r, w.store.record? id = some r ∧ r.cell.stage = .ended ending

theorem FileEnds.unique {ending ending' : Ending Fault Dependencies} (h : w.FileEnds id ending)
    (h' : w.FileEnds id ending') : ending = ending' := by
  obtain ⟨r, hr, hs⟩ := h
  obtain ⟨r', hr', hs'⟩ := h'
  obtain rfl := Option.some.inj (hr.symm.trans hr')
  rw [hs] at hs'
  cases hs'
  rfl

/-! ## What a walk is told -/

/-- Nobody waited for the files of the walk in its place at `start`. -/
def Latecomer (start : World) (x : Walk) : Prop :=
  ∀ waiters tally, x.phase = .resolving waiters tally → ∀ p ∈ waiters, start.waiting p.1 ≤ p.2

theorem Passes.latecomer (hp : Passes k w w' x y) (hgrows : start.store.Grows w.store)
    (h : Latecomer start x) : Latecomer start y := by
  intro waiters tally hphase p hmem
  cases hp with
  | stays => exact h waiters tally hphase p hmem
  | fetches => exact h waiters tally hphase p hmem
  | begins _ _ opens => exact (waiting_le hgrows).trans (opens.fresh waiters tally hphase p hmem)
  | continues _ _ _ _ _ opens =>
    exact (waiting_le hgrows).trans (opens.fresh waiters tally hphase p hmem)
  | resolves _ _ fresh =>
    cases hphase
    exact (waiting_le hgrows).trans (fresh p hmem)
  | hears phase =>
    cases hphase
    exact h _ _ phase p hmem
  | fetchFails => cases hphase
  | fileFails => cases hphase

/-- Whoever is cancelled while a walk listens to it gives up, or the walk is cancelled. -/
theorem drops_of_listens (hw : w.Tidy) (hgrows : w.store.Grows w'.store) {n place : Nat}
    (hlistens : w'.store.Listens id n (some ⟨k, place⟩)) {a : Action}
    (h : (id, n) ∈ w.drops a) :
    a = .giveUp id n ∧ w.store.Listens id n (some ⟨k, place⟩) ∨ a = .cancelWalk k := by
  obtain ⟨l, z, hl, hz⟩ := waiter_of_drops hw h
  have hthere : w.store.Listens id n z.listener := ⟨_, z, (lane?_eq_some.mp hl).1, hz, rfl⟩
  have hlistener := Store.listens_unique (hgrows.listens hthere) hlistens
  rw [hlistener] at hthere
  rcases isCancellation_of_drops h with ⟨other, waiter, rfl⟩ | ⟨j, rfl⟩
  · left
    simp only [drops] at h
    split at h
    · cases List.mem_singleton.mp h
      exact ⟨rfl, hthere⟩
    · cases h
  · right
    simp only [drops] at h
    split at h
    · rename_i waiters tally hphase
      obtain ⟨v, hv, hphase⟩ := Option.map_eq_some_iff.mp hphase
      split at h
      · cases h
      · obtain ⟨place', hplace⟩ := List.mem_iff_getElem?.mp h
        have hown := (hw.walks j v hv).waiters hphase hplace
        cases Store.listens_unique hown hthere
        rfl
    · cases h

variable {options : Options} {libName : String} {registries : Nat → Registry}
  {prior later : List Action}

/-- **A walk that nobody disturbs is told how its files have ended**, and nothing else. -/
theorem told_truly (hstart : start = (initial options libName registries).run env prior)
    (hx₀ : Pursues env k start x) (hlate : Latecomer start x)
    (hcalm : Undisturbed env k start later) (hy : (start.run env later).walks[k]? = some y)
    (hphase : y.phase = .resolving waiters tally) {p : FileId × Nat} (hp : p ∈ waiters)
    {o : Ending Fault Dependencies} (hout : (start.run env later).outcome? p.1 p.2 = some o) :
    (start.run env later).FileEnds p.1 o := by
  have htidy₀ := tidy_initial options libName registries
  have htidy : start.Tidy := hstart ▸ tidy_run env htidy₀ prior
  obtain ⟨y', hy', hlate'⟩ := hcalm.run htidy hx₀ (P := fun _ x => Latecomer start x) hlate
    fun before _ _ _ _ _ _ _ hp h => hp.latecomer (grows_run env htidy before) h
  obtain rfl := Option.some.inj (hy.symm.trans hy'.walk)
  have hrun : start.run env later =
      (initial options libName registries).run env (prior ++ later) := by rw [hstart, run_append]
  obtain ⟨r, hr, hbind⟩ := Option.bind_eq_some_iff.mp hout
  obtain ⟨z, hz, ho⟩ := Option.bind_eq_some_iff.mp hbind
  rcases explained_run options libName registries (prior ++ later)
    (lane?_of_record? (hrun ▸ hr)) p.2 z o hz ho with hs | ⟨-, before, a, after, hsplit, hdrops⟩
  · exact ⟨r, hr, hs⟩
  · exfalso
    rcases List.append_eq_append_iff.mp hsplit with
      ⟨middle, rfl, hlater⟩ | ⟨middle, hprior, hafter⟩
    · -- It was cancelled since the walk was requested.
      obtain ⟨place, hplace⟩ := List.mem_iff_getElem?.mp hp
      rw [run_append, ← hstart] at hdrops
      have hgrows : (start.run env middle).store.Grows (start.run env later).store := by
        rw [hlater, run_append]
        exact grows_run env (tidy_run env htidy middle) _
      rcases drops_of_listens (tidy_run env htidy middle) hgrows
        ((tidy_run env htidy later).walks k y hy |>.waiters hphase hplace) hdrops with
        ⟨rfl, hlistens⟩ | rfl
      · exact hcalm.giveUp middle after p.1 p.2 place hlater hlistens
      · exact hcalm.cancel (by rw [hlater]; simp)
    · -- Before that the waiter was not there.
      obtain ⟨l, v, hl, hv⟩ := waiter_of_drops (tidy_run env htidy₀ before) hdrops
      have hlt : p.2 < ((initial options libName registries).run env before).waiting p.1 := by
        rw [waiting_eq (lane?_eq_some.mp hl).1]
        exact (List.getElem?_eq_some_iff.mp hv).1
      have hgrows : ((initial options libName registries).run env before).store.Grows
          start.store := by
        rw [hstart, hprior, run_append]
        exact grows_run env (tidy_run env htidy₀ before) _
      exact Nat.lt_irrefl _
        ((hlt.trans_le (waiting_le hgrows)).trans_le (hlate' waiters tally hphase p hp))

theorem FileEnds.concat (hstart : start = (initial options libName registries).run env prior)
    {ending : Ending Fault Dependencies} (h : (start.run env later).FileEnds id ending)
    (a : Action) : (start.run env (later ++ [a])).FileEnds id ending := by
  have htidy₀ := tidy_initial options libName registries
  have hrun : start.run env later =
      (initial options libName registries).run env (prior ++ later) := by rw [hstart, run_append]
  obtain ⟨r, hr, hs⟩ := h
  rw [run_concat]
  rw [hrun] at hr ⊢
  refine ended_apply_stage (tidy_run env htidy₀ _) (fun id l hl => ?_) a hr hs
  rw [options_run htidy₀]
  exact lawful_run options libName registries _ hl

/-- How a file has ended stays. -/
theorem FileEnds.run (hstart : start = (initial options libName registries).run env prior)
    {ending : Ending Fault Dependencies} (h : (start.run env later).FileEnds id ending)
    (more : List Action) : (start.run env (later ++ more)).FileEnds id ending := by
  induction more using List.reverseRec with
  | nil => rwa [List.append_nil]
  | append_singleton more a ih =>
    rw [← List.append_assoc]
    exact ih.concat hstart a

/-! ## The fate of a walk -/

/-- What has become of a walk that waited for `waiters`. -/
inductive Fate (w : World) (waiters : List (FileId × Nat)) (x : Walk) : Prop
  /-- It waits for them. -/
  | waits {tally : Tally Fault Dependencies} (phase : x.phase = .resolving waiters tally)
  /-- It has failed as one of them. -/
  | failed {p : FileId × Nat} {ending : Ending Fault Dependencies} {failure : Ending Fault Empty}
    (mem : p ∈ waiters) (ends : w.FileEnds p.1 ending) (failing : ending.failure? = some failure)
    (phase : x.phase = .finished) (outcome : x.outcome = some (failure.carry .file))
  /-- All of them are resolved. -/
  | passed (all : ∀ p ∈ waiters, ∃ info, w.FileEnds p.1 (.returned info))

/-- Walk `k` is over, with the failure of one of the files. -/
def FailedAsOneOf (w : World) (k : Nat) (waiters : List (FileId × Nat)) : Prop :=
  ∃ p ∈ waiters, ∃ ending failure, w.FileEnds p.1 ending ∧ ending.failure? = some failure ∧
    w.Ends k (failure.carry .file)

/-- What has been told of the waiters is how their files have ended. -/
def Truthful (w : World) (waiters : List (FileId × Nat)) : Prop :=
  ∀ p ∈ waiters, ∀ o, w.outcome? p.1 p.2 = some o → w.FileEnds p.1 o

section Hearing

variable (h : w.Hearing k waiters tally) (htruth : w.Truthful waiters)
include h htruth

theorem Hearing.ends {place : Nat} {ending : Ending Fault Dependencies}
    (hheard : tally.heard[place]? = some (some ending)) :
    ∃ p, waiters[place]? = some p ∧ w.FileEnds p.1 ending := by
  obtain ⟨p, hp, hout⟩ := outcomeAt_eq_some.mp (h.heard place ending hheard)
  exact ⟨p, hp, htruth p (List.mem_of_getElem? hp) ending hout⟩

/-- When the verdict is that all files are resolved, they are. -/
theorem Hearing.passed {infos : List Dependencies}
    (hv : tally.verdict = some (.returned infos)) :
    ∀ p ∈ waiters, ∃ info, w.FileEnds p.1 (.returned info) := by
  intro p hp
  obtain ⟨place, hplace⟩ := List.mem_iff_getElem?.mp hp
  have hall := h.sound.returned infos hv
  have hlt : place < infos.length := by
    have hlength := h.length
    rw [hall, List.length_map] at hlength
    rw [hlength]
    exact (List.getElem?_eq_some_iff.mp hplace).1
  obtain ⟨q, hq, hends⟩ := h.ends htruth
    (show tally.heard[place]? = some (some (.returned infos[place])) by simp [hall, hlt])
  cases hplace.symm.trans hq
  exact ⟨_, hends⟩

/-- When the verdict is a failure, one of the files has failed so. -/
theorem Hearing.blamed {v : Ending Fault (List Dependencies)} {failure : Ending Fault Empty}
    (hv : tally.verdict = some v) (hfailure : v.failure? = some failure) :
    ∃ p ∈ waiters, ∃ ending, w.FileEnds p.1 ending ∧ ending.failure? = some failure := by
  obtain ⟨part, hpart, hfails⟩ := h.sound.failed v failure hv hfailure
  obtain ⟨place, hplace⟩ := List.mem_iff_getElem?.mp hpart
  obtain ⟨p, hp, hends⟩ := h.ends htruth hplace
  exact ⟨p, List.mem_of_getElem? hp, part, hends, hfails⟩

end Hearing

/-- **What an action makes of the fate of a walk.** -/
theorem Fate.passes (hf : Fate w waiters x) (h : Pursues env k w x) (hp : Passes k w w' x y)
    (htruth : ∀ tally, x.phase = .resolving waiters tally → w.Truthful waiters)
    (hends : ∀ id ending, w.FileEnds id ending → w'.FileEnds id ending) : Fate w' waiters y := by
  have hpassed : (∀ p ∈ waiters, ∃ info, w.FileEnds p.1 (.returned info)) → Fate w' waiters y :=
    fun hall => .passed fun p hp => (hall p hp).imp fun info => hends p.1 _
  cases hf with
  | passed all => exact hpassed all
  | failed mem ends failing phase outcome =>
    cases hp with
    | stays => exact .failed mem (hends _ _ ends) failing phase outcome
    | fetches => exact .failed mem (hends _ _ ends) failing phase outcome
    | begins phase' => cases phase.symm.trans phase'
    | resolves phase' => cases phase.symm.trans phase'
    | hears phase' => cases phase.symm.trans phase'
    | continues phase' => cases phase.symm.trans phase'
    | fetchFails phase' => cases phase.symm.trans phase'
    | fileFails phase' => cases phase.symm.trans phase'
  | waits phase =>
    have hhearing := h.hearing phase
    cases hp with
    | stays => exact .waits phase
    | fetches => exact .waits phase
    | begins phase' => cases phase.symm.trans phase'
    | resolves phase' => cases phase.symm.trans phase'
    | fetchFails phase' => cases phase.symm.trans phase'
    | hears phase' =>
      cases phase.symm.trans phase'
      exact .waits rfl
    | continues phase' verdict =>
      cases phase.symm.trans phase'
      exact hpassed (hhearing.passed (htruth _ phase) verdict)
    | fileFails phase' verdict =>
      cases phase.symm.trans phase'
      obtain ⟨v, hv, hfailure⟩ := Option.bind_eq_some_iff.mp verdict
      obtain ⟨p, hmem, ending, hfile, hfails⟩ := hhearing.blamed (htruth _ phase) hv hfailure
      exact .failed hmem (hends _ _ hfile) hfails rfl rfl

/-- **The fate of a walk that waits for `waiters`**, at any time after. -/
theorem fate_run (hstart : start = (initial options libName registries).run env prior)
    (hx₀ : Pursues env k start x) (hlate : Latecomer start x) {before : List Action}
    (hcalm : Undisturbed env k start (before ++ later))
    (hy : (start.run env before).walks[k]? = some y)
    (hphase : y.phase = .resolving waiters tally) :
    ∃ z, Pursues env k (start.run env (before ++ later)) z ∧
      Fate (start.run env (before ++ later)) waiters z := by
  have htidy : start.Tidy := hstart ▸ tidy_run env (tidy_initial options libName registries) prior
  have hwaits := hcalm.take.pursues_of htidy hx₀ hy
  rw [run_append]
  refine hcalm.drop.run (tidy_run env htidy before) hwaits (P := fun w x => Fate w waiters x)
    (.waits hphase) fun first a rest u v hsplit hu _ hp hfate => ?_
  simp only [← run_append] at hu hp hfate ⊢
  have hfirst : Undisturbed env k start (before ++ first) := by
    rw [hsplit, ← List.append_assoc] at hcalm
    exact hcalm.take
  refine hfate.passes hu hp (fun tally' hphase' p hmem o hout =>
    told_truly hstart hx₀ hlate hfirst hu.walk hphase' hmem hout) fun id ending hends => ?_
  rw [← List.append_assoc]
  exact hends.concat hstart a

/-! ## It does fail -/

/-- Hearing of a file that failed brings the verdict. -/
theorem decided_of_resolved (h : Pursues env k w x) (hphase : x.phase = .resolving waiters tally)
    {place : Nat} (hnext : w.loop.next? = some (.walk k (.resolved place), loop))
    {ending : Ending Fault Dependencies} {failure : Ending Fault Empty}
    (hout : w.outcomeAt waiters place = some ending) (hfails : ending.failure? = some failure) :
    ∃ y tally', (w.apply env .tick).walks[k]? = some y ∧ y.phase = .resolving waiters tally' ∧
      tally'.verdict.isSome := by
  refine ⟨{ x with phase := .resolving waiters (tally.hear place ending) }, _, ?_, rfl, ?_⟩
  · rw [apply_tick_walk h.walk hnext]
    have hsome : (waiters[place]?.bind fun p => ({ w with loop } : World).outcome? p.1 p.2) =
        some ending := hout
    simp only [performWalk, h.walk, hearWalk, hphase, hsome]
    have hwalk := getElem?_modifyWalk_self (w := { w with loop }) h.walk fun x =>
      { x with phase := .resolving waiters (tally.hear place ending) }
    split <;> exact hwalk
  · cases hv : tally.verdict with
    | some v => simp [Tally.hear_of_verdict hv]
    | none =>
      obtain ⟨v, hverdict, -⟩ := Tally.hear_failure hv place hfails
      simp [hverdict]

/-- Waking to a failure ends the walk. -/
theorem ends_of_wake (h : Pursues env k w x) (hphase : x.phase = .resolving waiters tally)
    {v : Ending Fault (List Dependencies)} {failure : Ending Fault Empty}
    (hv : tally.verdict = some v) (hfailure : v.failure? = some failure)
    (hnext : w.loop.next? = some (.walk k .wake, loop)) :
    (w.apply env .tick).Ends k (failure.carry .file) := by
  rw [apply_tick_walk h.walk hnext]
  simp only [performWalk, h.walk, wakeWalk, h.unstopped, hphase, hv]
  cases v with
  | returned infos => cases hfailure
  | raised fault =>
    cases hfailure
    exact ⟨_, getElem?_modifyWalk_self (w := { w with loop }) h.walk _, rfl⟩
  | cancelled =>
    cases hfailure
    exact ⟨_, getElem?_modifyWalk_self (w := { w with loop }) h.walk _, rfl⟩

variable {schedule : Nat → Action}

/-- Once a file has ended, everyone who waits for it is told some time, for good. -/
theorem told_after {actions : List Action}
    (hw : w = (initial options libName registries).run env actions)
    (hticks : ∀ n, ∃ m, n ≤ m ∧ schedule m = .tick) {ending : Ending Fault Dependencies}
    (hends : w.FileEnds id ending) {n : Nat} {listener : Option WalkRef}
    (hlistens : w.store.Listens id n listener) :
    ∃ m₁, ∀ m, m₁ ≤ m → ∃ o, (w.after env schedule m).outcome? id n = some o := by
  have htidy₀ := tidy_initial options libName registries
  have htidy : w.Tidy := hw ▸ tidy_run env htidy₀ actions
  have hoptions : w.store.options = options := hw ▸ options_run htidy₀ actions
  obtain ⟨r, hr, hs⟩ := hends
  obtain ⟨r', x, hr', hx, -⟩ := hlistens
  obtain rfl := Option.some.inj (hr.symm.trans hr')
  obtain ⟨l, hl, rfl⟩ : ∃ l, w.lane? id = some l ∧ l.record = r :=
    ⟨_, lane?_of_record? hr, rfl⟩
  have hlawful := lawful_run options libName registries actions (hw ▸ hl)
  obtain ⟨resolver, occurrences, hclosed⟩ := hlawful.closed_of_ended hs
  obtain ⟨m₁, o, -, hout⟩ :=
    hears_of_ended htidy hoptions hticks (n := 0) hl ⟨ending, hclosed⟩ hx
  have hfull : ∀ m, w.after env schedule m = (initial options libName registries).run env
      (actions ++ (List.range m).map schedule) := fun m => by rw [after_eq_run, hw, run_append]
  refine ⟨m₁, fun m hm => ?_⟩
  obtain ⟨r₁, hr₁, hbind⟩ := Option.bind_eq_some_iff.mp hout
  obtain ⟨x₁, hx₁, ho₁⟩ := Option.bind_eq_some_iff.mp hbind
  obtain ⟨lm, hlm, -⟩ := ended_after htidy hoptions (n := 0) hl hclosed (Nat.zero_le m)
  have hsplit : (List.range m).map schedule =
      (List.range m₁).map schedule ++ (List.range (m - m₁)).map fun i => schedule (m₁ + i) := by
    obtain ⟨d, rfl⟩ := Nat.exists_eq_add_of_le hm
    rw [List.range_add, List.map_append, List.map_map, Nat.add_sub_cancel_left]
    rfl
  have hlm' := hlm
  rw [hfull, hsplit, ← List.append_assoc] at hlm'
  rw [hfull] at hr₁
  obtain ⟨xm, om, hxm, hom⟩ := settled_run options libName registries _ _ (lane?_of_record? hr₁)
    ⟨x₁, o, hx₁, ho₁⟩ hlm'
  exact ⟨om, by rw [outcome?_of_lane hlm, hxm]; exact hom⟩

/-- A walk that waits for a file that has failed comes to a verdict, unless it ends before. -/
theorem decided_after (hw : w.Tidy) (hticks : ∀ n, ∃ m, n ≤ m ∧ schedule m = .tick)
    (hwaits : ∀ n, ∃ z tally, Pursues env k (w.after env schedule n) z ∧
      z.phase = .resolving waiters tally) {place m₁ : Nat} {ending : Ending Fault Dependencies}
    {failure : Ending Fault Empty} (hfails : ending.failure? = some failure)
    (htold : ∀ m, m₁ ≤ m → (w.after env schedule m).outcomeAt waiters place = some ending) :
    ∃ m z tally, Pursues env k (w.after env schedule m) z ∧
      z.phase = .resolving waiters tally ∧ tally.verdict.isSome := by
  obtain ⟨z, tally, hz, hphase⟩ := hwaits m₁
  have hhearing := hz.hearing hphase
  rcases hhearing.due place ending (htold m₁ le_rfl) with hdue | hheard
  · obtain ⟨before, rest, hsplit⟩ := List.append_of_mem (due_of_errands hdue)
    obtain ⟨m, hm, htick, loop, hnext⟩ := tick_reaches hw hticks hsplit
    obtain ⟨z, tally, hz, hphase⟩ := hwaits m
    obtain ⟨y, tally', hy, hyphase, hv⟩ :=
      decided_of_resolved hz hphase hnext (htold m hm) hfails
    obtain ⟨y', tally'', hy', -⟩ := hwaits (m + 1)
    rw [← htick] at hy
    obtain rfl := Option.some.inj (hy.symm.trans hy'.walk)
    exact ⟨m + 1, y, tally', hy', hyphase, hv⟩
  · refine ⟨m₁, z, tally, hz, hphase, ?_⟩
    cases hv : tally.verdict with
    | some v => rfl
    | none =>
      rw [hhearing.sound.undecided hv ending (List.mem_of_getElem? hheard)] at hfails
      cases hfails

/-- Once there is a verdict the walk wakes to one, unless it ends before. -/
theorem wakes_after (hw : w.Tidy) (hticks : ∀ n, ∃ m, n ≤ m ∧ schedule m = .tick)
    (hwaits : ∀ n, ∃ z tally, Pursues env k (w.after env schedule n) z ∧
      z.phase = .resolving waiters tally) {m : Nat} (hx : Pursues env k (w.after env schedule m) x)
    (hphase : x.phase = .resolving waiters tally) (hv : tally.verdict.isSome) :
    ∃ m z tally v loop, Pursues env k (w.after env schedule m) z ∧
      z.phase = .resolving waiters tally ∧ tally.verdict = some v ∧ schedule m = .tick ∧
      (w.after env schedule m).loop.next? = some (.walk k .wake, loop) := by
  have hwake : .wake ∈ ((w.after env schedule m).errands k).ready := by
    have hcount := (hx.hearing hphase).wake
    rw [if_pos hv] at hcount
    exact List.count_pos_iff.mp (by omega)
  obtain ⟨first, rest, hsplit⟩ := List.append_of_mem (due_of_errands hwake)
  obtain ⟨m', -, htick, loop, hnext⟩ := tick_reaches hw hticks hsplit
  obtain ⟨z, tally, hz, hphase⟩ := hwaits m'
  have hpos := (count_of_next (pop_errand hnext rfl).1).1
  rw [(hz.hearing hphase).wake] at hpos
  cases hv : tally.verdict with
  | none => simp [hv] at hpos
  | some v => exact ⟨m', z, tally, v, loop, hz, hphase, hv, htick, hnext⟩

/-- **If one of the files has failed**, the walk fails as one of them, as long as jobs are carried
out. -/
theorem ends_of_failed (hstart : start = (initial options libName registries).run env prior)
    (hx₀ : Pursues env k start x) (hlate : Latecomer start x) {before : List Action}
    (hcalm : Undisturbed env k start (before ++ later))
    (hy : (start.run env before).walks[k]? = some y)
    (hphase : y.phase = .resolving waiters tally) {last : World}
    (hlast : last = start.run env (before ++ later)) (hcarries : CarriesOn env k last schedule)
    {p : FileId × Nat} (hp : p ∈ waiters) {ending : Ending Fault Dependencies}
    {failure : Ending Fault Empty} (hends : last.FileEnds p.1 ending)
    (hfails : ending.failure? = some failure) :
    ∃ n, (last.after env schedule n).FailedAsOneOf k waiters := by
  have hfull : last = (initial options libName registries).run env (prior ++ (before ++ later)) := by
    rw [hlast, hstart, ← run_append]
  have htidy : last.Tidy := hfull ▸ tidy_run env (tidy_initial options libName registries) _
  have hrun : ∀ n, last.after env schedule n =
      start.run env (before ++ (later ++ (List.range n).map schedule)) := by
    intro n
    rw [after_eq_run, hlast, ← run_append, List.append_assoc]
  have hcalm' : ∀ n,
      Undisturbed env k start (before ++ (later ++ (List.range n).map schedule)) := by
    intro n
    rw [← List.append_assoc]
    exact hcalm.append (hlast ▸ hcarries.undisturbed n)
  have hfailed : ∀ n, (last.after env schedule n).FileEnds p.1 ending := by
    intro n
    rw [hrun, ← List.append_assoc]
    rw [hlast] at hends
    exact hends.run hstart _
  have htruth : ∀ {n z tally}, Pursues env k (last.after env schedule n) z →
      z.phase = .resolving waiters tally → (last.after env schedule n).Truthful waiters := by
    intro n z tally hz hphase' q hq o hout
    have hcalm'' := hcalm' n
    rw [hrun] at hz hout ⊢
    exact told_truly hstart hx₀ hlate hcalm'' hz.walk hphase' hq hout
  -- Otherwise the walk would wait for its files forever.
  by_contra hnot
  have hwaits : ∀ n, ∃ z tally, Pursues env k (last.after env schedule n) z ∧
      z.phase = .resolving waiters tally := by
    intro n
    obtain ⟨z, hz, hfate⟩ := fate_run hstart hx₀ hlate (hcalm' n) hy hphase
    rw [← hrun] at hz hfate
    cases hfate with
    | waits phase => exact ⟨z, _, hz, phase⟩
    | failed mem ends failing _ outcome =>
      exact absurd ⟨n, _, mem, _, _, ends, failing, z, hz.walk, outcome⟩ hnot
    | passed all =>
      obtain ⟨info, hinfo⟩ := all p hp
      rw [← hinfo.unique (hfailed n)] at hfails
      cases hfails
  obtain ⟨place, hplace⟩ := List.mem_iff_getElem?.mp hp
  obtain ⟨m₁, htold⟩ : ∃ m₁, ∀ m, m₁ ≤ m →
      (last.after env schedule m).outcomeAt waiters place = some ending := by
    obtain ⟨z, tally', hz, hphase'⟩ := hwaits 0
    obtain ⟨m₁, htold⟩ := told_after hfull hcarries.ticks hends
      ((htidy.walks k z hz.walk).waiters hphase' hplace)
    refine ⟨m₁, fun m hm => ?_⟩
    obtain ⟨o, hout⟩ := htold m hm
    obtain ⟨z, tally', hz, hphase'⟩ := hwaits m
    rw [(hfailed m).unique (htruth hz hphase' p hp o hout)]
    exact outcomeAt_eq_some.mpr ⟨p, hplace, hout⟩
  obtain ⟨m, z, tally, hz, hphase, hv⟩ := decided_after htidy hcarries.ticks hwaits hfails htold
  obtain ⟨m', z, tally, v, loop, hz, hphase, hv, htick, hnext⟩ :=
    wakes_after htidy hcarries.ticks hwaits hz hphase hv
  cases hfailure : v.failure? with
  | none =>
    obtain ⟨infos, rfl⟩ := Ending.failure?_eq_none.mp hfailure
    obtain ⟨info, hinfo⟩ := (hz.hearing hphase).passed (htruth hz hphase) hv p hp
    rw [← hinfo.unique (hfailed m')] at hfails
    cases hfails
  | some failure' =>
    obtain ⟨y, hy, hout⟩ := ends_of_wake hz hphase hv hfailure hnext
    obtain ⟨y', tally', hy', hphase'⟩ := hwaits (m' + 1)
    rw [← htick] at hy
    obtain rfl := Option.some.inj (hy.symm.trans hy'.walk)
    rw [hy'.silent (by simp [hphase'])] at hout
    cases hout

end World

end DepGraph
