import DepGraph.Proofs.LaterRequests
import DepGraph.Proofs.Pursuit
import DepGraph.Proofs.Sharing

/-!
# What a walk does, round after round

* `World.Poised` — a walk is about to begin a round, and `World.pursues_resolveRound`,
  `World.pursues_startRound` — the round begins: no file is refused.
* `World.Passes` — what an action makes of a walk that nobody cancels.
* `World.becomes_performWalk` — what each job of the walk makes of it.
* `World.becomes_apply` — what every action makes of it, and `World.Undisturbed.run`,
  `World.CarriesOn.keeps` — what a run and a schedule keep of it.
-/

set_option autoImplicit false

namespace DepGraph

/-- The failure of a part as the failure of the whole. -/
def Ending.carry {φ ψ α : Type} (wrap : φ → ψ) : Ending φ Empty → Ending ψ α
  | .returned a => nomatch a
  | .raised f => .raised (wrap f)
  | .cancelled => .cancelled

namespace World

variable {env : Nat → Environment} {w w' : World} {k : Nat} {x y : Walk} {loop : Loop Job}

/-! ## A round begins -/

/-- Walk `k`, which is `x`, is about to begin a round. -/
structure Poised (env : Nat → Environment) (k : Nat) (w : World) (x : Walk) : Prop where
  walk : w.walks[k]? = some x
  reads : ∀ text, ∃ result, (env x.resolver).extract text = .ok result
  unstopped : x.stopping = false
  silent : x.outcome = none
  waiting : (w.errands k).waiting = []
  start : (w.errands k).ready.count .start = 0
  wake : (w.errands k).ready.count .wake = 0
  clear : w.Clear k
  returned : x.fetches.Returned

theorem Poised.elsewhere (h : Poised env k w x) (he : Elsewhere k w w') : Poised env k w' x := by
  have hstart : (w'.errands k).ready.count .start = (w.errands k).ready.count .start :=
    he.count_errand (by simp)
  have hwake : (w'.errands k).ready.count .wake = (w.errands k).ready.count .wake :=
    he.count_errand (by simp)
  exact ⟨he.walk.trans h.walk, h.reads, h.unstopped, h.silent, he.waiting_errands.trans h.waiting,
    hstart.trans h.start, hwake.trans h.wake, he.clear h.clear, h.returned⟩

theorem getElem?_modifyWalk_self (hx : w.walks[k]? = some x) (change : Walk → Walk) :
    (w.modifyWalk k change).walks[k]? = some (change x) := by
  rw [getElem?_modifyWalk, if_pos rfl, hx]
  rfl

/-- Files that the store knows can be asked for. -/
theorem resolveAll_ok {env : Environment} (hreads : ∀ text, ∃ result, env.extract text = .ok result)
    (resolver k place : Nat) {names : List String} (hinhabited : w.store.Inhabited)
    (hknown : ∀ name ∈ names, w.store.contains name = true) :
    ∃ waiters, (resolveAll env resolver k place w names).2 = .ok waiters := by
  induction names generalizing w place with
  | nil => exact ⟨[], rfl⟩
  | cons name rest ih =>
    have hkept := kept_resolve env w resolver name (some ⟨k, place⟩)
    have hone : ∃ p, (w.resolve env resolver name (some ⟨k, place⟩)).2 = .ok p := by
      rcases resolve_spec env w resolver name (some ⟨k, place⟩) with
        ⟨hnone, -⟩ | ⟨id, r, -, -, ⟨-, cause, hcause, -⟩ | ⟨-, _, _, -, h⟩ | ⟨-, h⟩⟩
      · obtain ⟨id, hid⟩ := Store.current?_of_contains (hknown name List.mem_cons_self)
        obtain ⟨r, hr⟩ := hinhabited.record? hid
        rw [Store.find?_eq hid, hr] at hnone
        cases hnone
      · obtain ⟨result, hresult⟩ := hreads r.text
        cases hcause.symm.trans hresult
      · exact ⟨_, congrArg Prod.snd h⟩
      · exact ⟨_, congrArg Prod.snd h⟩
    obtain ⟨p, hp⟩ := hone
    obtain ⟨waiters, hwaiters⟩ := ih (place + 1) (hkept.inhabited hinhabited) fun other hother =>
      (hkept.contains other).trans (hknown other (List.mem_cons_of_mem _ hother))
    unfold resolveAll
    split
    · rename_i heq
      cases hp.symm.trans (congrArg Prod.snd heq)
    · rename_i w₁ waiter heq
      rw [heq] at hwaiters
      split
      · rename_i heq'
        cases hwaiters.symm.trans (congrArg Prod.snd heq')
      · exact ⟨_, rfl⟩

/-- Nobody waited in the place of a walk before it asked. -/
theorem waiting_le_of_resolveAll {resolver place : Nat} {names : List String}
    {waiters : List (FileId × Nat)}
    (h : (resolveAll (env resolver) resolver k place w names).2 = .ok waiters) :
    ∀ p ∈ waiters, w.waiting p.1 ≤ p.2 := by
  induction names generalizing w place waiters with
  | nil =>
    cases h
    nofun
  | cons name rest ih =>
    have hgrows := grows_resolve (env resolver) w resolver name (some ⟨k, place⟩)
    unfold resolveAll at h
    split at h
    · cases h
    · rename_i w₁ waiter heq
      rw [heq] at hgrows
      split at h
      · cases h
      · rename_i w₂ others heq'
        cases h
        intro p hp
        rcases List.mem_cons.mp hp with rfl | hp
        · exact (resolve_waiter (congrArg Prod.snd heq)).ge
        · exact (waiting_le hgrows).trans (ih (congrArg Prod.snd heq') p hp)

theorem mem_settledPlaces {waiters : List (FileId × Nat)} {place : Nat}
    {ending : Ending Fault Dependencies} (h : w.outcomeAt waiters place = some ending) :
    place ∈ w.settledPlaces waiters := by
  obtain ⟨p, hp, hout⟩ := outcomeAt_eq_some.mp h
  refine List.mem_filter.mpr ⟨List.mem_range.mpr (List.getElem?_eq_some_iff.mp hp).1, ?_⟩
  simp [hp, hout]

/-- **All files of a round are asked for**, and none is refused. -/
theorem pursues_resolveRound (h : Poised env k w x) (hinhabited : w.store.Inhabited)
    (hknown : ∀ name ∈ x.pending, w.store.contains name = true) :
    ∃ waiters, (∀ p ∈ waiters, w.waiting p.1 ≤ p.2) ∧
      Pursues env k (w.resolveRound (env x.resolver) k x)
        { x with phase := .resolving waiters (Tally.start waiters.length) } := by
  obtain ⟨waiters, hok⟩ := resolveAll_ok h.reads x.resolver k 0 hinhabited hknown
  have hasked := elsewhere_resolveAll k (env x.resolver) x.resolver k 0 w x.pending
  obtain ⟨w₁, hall⟩ : ∃ w₁, resolveAll (env x.resolver) x.resolver k 0 w x.pending =
      (w₁, .ok waiters) := ⟨_, Prod.ext rfl hok⟩
  rw [hall] at hasked
  have hpoised := h.elsewhere hasked
  refine ⟨waiters, waiting_le_of_resolveAll hok, ?_⟩
  unfold resolveRound
  rw [hall]
  simp only
  generalize hw₂ : w₁.modifyWalk k (fun x =>
    { x with phase := .resolving waiters (Tally.start waiters.length) }) = w₂
  have hwalk : w₂.walks[k]? = some _ := hw₂ ▸ getElem?_modifyWalk_self hpoised.walk _
  have htexts : w₂.texts k = w₁.texts k := by rw [← hw₂]; rfl
  have herrands : w₂.errands k = w₁.errands k := by rw [← hw₂]; rfl
  have hout : w₂.outcomeAt waiters = w₁.outcomeAt waiters := by rw [← hw₂]; rfl
  obtain ⟨htexts', herrands'⟩ := texts_errands_postAll w₂ k (w₁.settledPlaces waiters)
  rw [htexts] at htexts'
  rw [herrands] at herrands'
  have hcount : ∀ job : WalkJob, (∀ place, job ≠ .resolved place) →
      ((w₁.errands k).postAll ((w₁.settledPlaces waiters).map .resolved)).ready.count job =
        (w₁.errands k).ready.count job := by
    intro job hjob
    rw [Loop.postAll, List.count_append, WalkJob.count_resolved hjob, Nat.add_zero]
  refine ⟨hwalk, h.reads, h.unstopped, ?_, .resolving rfl h.silent ?_ h.returned
    ⟨Tally.sound_start _, by simp [Tally.start], fun place ending hheard => ?_,
      fun place ending hcome => .inl ?_, ?_⟩ ?_⟩
  · rw [herrands']
    exact hpoised.waiting
  · unfold Clear
    rw [htexts']
    exact hpoised.clear
  · cases List.eq_of_mem_replicate (List.mem_of_getElem? hheard)
  · rw [herrands']
    have hcome' : w₁.outcomeAt waiters place = some ending := by
      rw [← hout]
      exact hcome
    exact List.mem_append_right _ (List.mem_map_of_mem (mem_settledPlaces hcome'))
  · rw [herrands', hcount .wake (by simp)]
    exact hpoised.wake
  · rw [herrands', hcount .start (by simp)]
    exact hpoised.start

/-- A round of a walk that was `x` has begun, or there was none left. No request has failed, nobody
waited for its files in its place before, and if the walk is over it has returned. -/
structure Opens (w : World) (x y : Walk) : Prop where
  resolver : y.resolver = x.resolver
  round : y.round = x.round
  fresh : ∀ waiters tally, y.phase = .resolving waiters tally →
    ∀ p ∈ waiters, w.waiting p.1 ≤ p.2
  unfailed : ∀ i failure, ¬y.fetches.Fails i failure
  outcome : ∀ ending, y.outcome = some ending → ∃ names, ending = .returned names

/-- **A round begins**: texts are asked for, or else all its files, or else the walk returns. -/
theorem pursues_startRound (h : Poised env k w x) (hinhabited : w.store.Inhabited) :
    ∃ y, Pursues env k (w.startRound (env x.resolver) k x) y ∧ w.Opens x y := by
  unfold startRound
  split
  · exact ⟨_, ⟨getElem?_modifyWalk_self h.walk _, h.reads, h.unstopped, h.waiting,
      .finished rfl rfl (by simp) (.inl h.returned) h.start⟩, rfl, rfl, by simp, h.returned.not_fails,
      fun _ hout => ⟨_, (Option.some.inj hout).symm⟩⟩
  · have hknown : ∀ name ∈ x.pending, name ∈ x.pending.filter (fun name => !w.store.contains name) ∨
        w.store.contains name = true := by
      intro name hname
      cases hc : w.store.contains name with
      | true => exact .inr rfl
      | false => exact .inl (List.mem_filter.mpr ⟨hname, by simp [hc]⟩)
    simp only
    split
    · rename_i hnone
      rw [List.isEmpty_iff.mp hnone] at hknown
      obtain ⟨waiters, hfresh, hpursues⟩ := pursues_resolveRound h hinhabited fun name hname =>
        (hknown name hname).resolve_left List.not_mem_nil
      refine ⟨_, hpursues, rfl, rfl, fun waiters' tally heq => ?_, h.returned.not_fails,
        fun ending hout => ?_⟩
      · cases heq
        exact hfresh
      · cases h.silent.symm.trans hout
    · rename_i hsome
      generalize hmissing : x.pending.filter (fun name => !w.store.contains name) = missing at *
      have hnonempty : missing ≠ [] := fun hnil => hsome (List.isEmpty_iff.mpr hnil)
      -- The requests are launched at once; their turns are due from then on.
      have hnext : ({ ready := [.launch], opened := w.loop.opened } : Loop JoinJob).next? =
          some (.launch, { opened := w.loop.opened }) := rfl
      have hlaunch := (Join.running_ofScripts (fetchScripts (env x.resolver) k x.round missing)
        w.loop.opened).perform hnext (by simp) fun _ hnil => hnonempty (by
          simpa [Join.ofScripts, fetchScripts] using hnil)
      obtain ⟨hdone, herrands⟩ := w.texts_perform k
        (Join.ofScripts (fetchScripts (env x.resolver) k x.round missing)) .launch
      rw [h.clear.eq, Prod.ext_iff, Prod.ext_iff] at hdone
      obtain ⟨-, htexts, hjoin⟩ := hdone
      rw [← htexts, ← hjoin] at hlaunch
      refine ⟨{ x with phase := .fetching missing, fetches := _ }, ⟨getElem?_modifyWalk_self
        (w := { w with loop := _ }) h.walk _, h.reads, h.unstopped,
        (congrArg Loop.waiting herrands).trans h.waiting, .fetching rfl h.silent hnonempty hknown
        hlaunch ((congrArg (fun l => l.ready.count .start) herrands).trans h.start)
        ((congrArg (fun l => l.ready.count .wake) herrands).trans h.wake)⟩, rfl, rfl, by simp,
        fun i failure => Join.not_fails_ofScripts i failure, fun ending hout => ?_⟩
      cases h.silent.symm.trans hout

/-! ## What an action makes of a walk -/

/-- **What an action makes of walk `k`**, which was `x` and which nobody cancels. -/
inductive Passes (k : Nat) (w w' : World) (x : Walk) : Walk → Prop
  /-- The walk stays as it is, and what it is bound to fail with does. -/
  | stays (kept : w.store.Kept w'.store) (failing : x.phase ≠ .finished →
      Join.failing (w'.texts k) x.fetches = Join.failing (w.texts k) x.fetches) : Passes k w w' x x
  /-- A request for a text goes on. -/
  | fetches {job : JoinJob} {rest : Loop JoinJob} (kept : w.store.Kept w'.store)
    (next : (w.texts k).next? = some (job, rest))
    (texts : w'.texts k = (x.fetches.perform id rest job).2.1) :
    Passes k w w' x { x with fetches := (x.fetches.perform id rest job).2.2 }
  /-- The first round begins. -/
  | begins {y : Walk} (phase : x.phase = .starting) (kept : w.store.Kept w'.store)
    (opens : w.Opens x y) : Passes k w w' x y
  /-- All texts of a round have come: its files are added and asked for. -/
  | resolves {missing texts : List String} {waiters : List (FileId × Nat)}
    (phase : x.phase = .fetching missing)
    (verdict : x.fetches.tally.verdict = some (.returned texts))
    (fresh : ∀ p ∈ waiters, w.waiting p.1 ≤ p.2) :
    Passes k w w' x { x with phase := .resolving waiters (Tally.start waiters.length) }
  /-- The walk hears of a file of its round. -/
  | hears {waiters : List (FileId × Nat)} {tally tally' : Tally Fault Dependencies}
    (phase : x.phase = .resolving waiters tally) (kept : w.store.Kept w'.store) :
    Passes k w w' x { x with phase := .resolving waiters tally' }
  /-- All files of a round are resolved, and the next round begins. -/
  | continues {waiters : List (FileId × Nat)} {tally : Tally Fault Dependencies}
    {infos : List Dependencies} {next y : Walk} (phase : x.phase = .resolving waiters tally)
    (verdict : tally.verdict = some (.returned infos)) (kept : w.store.Kept w'.store)
    (resolver : next.resolver = x.resolver) (round : next.round = x.round + 1)
    (opens : w.Opens next y) : Passes k w w' x y
  /-- A request for a text has failed, and so does the walk. Nothing else changes. -/
  | fetchFails {missing : List String} {failure : Ending Cause Empty}
    (phase : x.phase = .fetching missing)
    (verdict : x.fetches.tally.verdict.bind Ending.failure? = some failure)
    (store : w'.store = w.store) (lanes : ∀ id, w'.lane? id = w.lane? id) :
    Passes k w w' x { x with phase := .finished, outcome := some (failure.carry .fetch) }
  /-- The resolution of a file has failed, and so does the walk. Nothing else changes. -/
  | fileFails {waiters : List (FileId × Nat)} {tally : Tally Fault Dependencies}
    {failure : Ending Fault Empty} (phase : x.phase = .resolving waiters tally)
    (verdict : tally.verdict.bind Ending.failure? = some failure)
    (store : w'.store = w.store) (lanes : ∀ id, w'.lane? id = w.lane? id) :
    Passes k w w' x { x with phase := .finished, outcome := some (failure.carry .file) }

theorem Passes.resolver (hp : Passes k w w' x y) : y.resolver = x.resolver := by
  cases hp with
  | begins _ _ opens => exact opens.resolver
  | continues _ _ _ resolver _ opens => exact opens.resolver.trans resolver
  | _ => rfl

/-- What becomes of walk `k`, which was `x`. -/
def Becomes (env : Nat → Environment) (k : Nat) (w w' : World) (x : Walk) : Prop :=
  ∃ y, Pursues env k w' y ∧ Passes k w w' x y

theorem count_of_next {job : WalkJob} {rest : Loop WalkJob}
    (hnext : (w.errands k).next? = some (job, rest)) :
    0 < (w.errands k).ready.count job ∧
      ∀ other, (w.errands k).ready.count other = rest.ready.count other +
        if job = other then 1 else 0 := by
  obtain ⟨-, -, hready⟩ := Loop.waiting_next? hnext
  rw [hready]
  refine ⟨by simp, fun other => ?_⟩
  rw [List.count_cons]
  simp

/-- The walk begins. -/
theorem becomes_start (h : Pursues env k w x) (hinhabited : w.store.Inhabited)
    (hnext : w.loop.next? = some (.walk k .start, loop)) :
    Becomes env k w (({ w with loop } : World).performWalk (env x.resolver) k .start) x := by
  obtain ⟨hpop, htexts⟩ := pop_errand hnext rfl
  obtain ⟨hpos, hcount⟩ := count_of_next hpop
  have hstart := hcount .start
  have hwake := hcount .wake
  have hstep : ({ w with loop } : World).performWalk (env x.resolver) k .start =
      ({ w with loop } : World).startRound (env x.resolver) k x := by
    simp [performWalk, h.walk, h.unstopped]
  rw [hstep]
  cases h.stage with
  | starting phase silent clear returned start wake =>
    rw [start, if_pos rfl] at hstart
    rw [wake, if_neg (by simp)] at hwake
    have hpoised : Poised env k ({ w with loop } : World) x :=
      ⟨h.walk, h.reads, h.unstopped, silent, (Loop.waiting_next? hpop).1.trans h.waiting, by omega,
        by omega, by rw [Clear, htexts]; exact clear, returned⟩
    obtain ⟨y, hy, hopens⟩ := pursues_startRound hpoised hinhabited
    exact ⟨y, hy, .begins phase ((frames_kept k).startRound _ { w with loop } _)
      ⟨hopens.resolver, hopens.round, hopens.fresh, hopens.unfailed, hopens.outcome⟩⟩
  | fetching _ _ _ _ _ start _ => omega
  | resolving _ _ _ _ _ start => omega
  | finished _ _ _ _ start => omega

/-- A job of a request for a text, before the round has its verdict or after the walk is over. -/
theorem becomes_fetch (h : Pursues env k w x) {job : JoinJob} (hjob : job ≠ .wake)
    (hnext : w.loop.next? = some (.walk k (.fetch job), loop)) :
    Becomes env k w (({ w with loop } : World).performWalk (env x.resolver) k (.fetch job)) x := by
  obtain ⟨hpop, herrands⟩ := pop_fetch hnext
  obtain ⟨hdone, herrands'⟩ := ({ w with loop } : World).texts_perform k x.fetches job
  rw [herrands] at herrands'
  rw [Prod.ext_iff, Prod.ext_iff] at hdone
  obtain ⟨-, htexts, hjoin⟩ := hdone
  simp only at htexts hjoin
  rw [performWalk_fetch (w := { w with loop }) h.walk hjob]
  refine ⟨_, ⟨getElem?_modifyWalk_self (w := { w with loop := _ }) h.walk _, h.reads, h.unstopped,
    (congrArg Loop.waiting herrands').trans h.waiting, ?_⟩, by
      rw [hjoin]
      exact .fetches (.refl _) hpop htexts⟩
  have hstart := congrArg (fun l => l.ready.count .start) herrands'
  have hwake := congrArg (fun l => l.ready.count .wake) herrands'
  cases h.stage with
  | starting _ _ clear _ _ _ => exact absurd hpop (not_next?_of_clear clear)
  | resolving _ _ clear _ _ _ => exact absurd hpop (not_next?_of_clear clear)
  | @fetching missing events phase silent nonempty known running start wake =>
    have hmembers : x.fetches.members ≠ [] := by
      intro hnil
      have hlength := running.along.length
      rw [hnil, length_fetchScripts] at hlength
      exact nonempty (List.length_eq_zero_iff.mp hlength.symm)
    have hrunning := running.perform hpop hjob fun _ => hmembers
    rw [← htexts, ← hjoin] at hrunning
    exact .fetching phase silent nonempty known hrunning (hstart.trans start) (hwake.trans wake)
  | finished phase outcome unrefused fetched start =>
    refine .finished phase outcome unrefused ?_ (hstart.trans start)
    refine fetched.imp (fun hreturned => hreturned.perform _ _ _) ?_
    rintro ⟨i, failure, hfails⟩
    exact ⟨i, failure, hfails.perform _ _ _⟩

theorem contains_addAll {files : List (String × String)} {name : String}
    (h : name ∈ files.map (·.1) ∨ w.store.contains name = true) :
    (files.foldl (fun w (name, text) => w.add name text) w).store.contains name = true := by
  induction files generalizing w with
  | nil => exact h.resolve_left List.not_mem_nil
  | cons file rest ih =>
    refine ih ?_
    rw [store_add, Store.contains_add]
    rcases h with hmem | hknown
    · rcases List.mem_cons.mp hmem with rfl | hmem
      · simp
      · exact .inl hmem
    · simp [hknown]

theorem inhabited_addAll (files : List (String × String)) (h : w.store.Inhabited) :
    (files.foldl (fun w (name, text) => w.add name text) w).store.Inhabited := by
  induction files generalizing w with
  | nil => exact h
  | cons file rest ih =>
    refine ih ?_
    rw [store_add]
    exact h.add _ _

/-- The walk ends with the failure of a part, and nothing else changes. -/
theorem pursues_endWalk (h : Pursues env k w x) {job : WalkJob}
    (hnext : w.loop.next? = some (.walk k job, loop)) {ending : Ending WalkFault (List String)}
    (hunrefused : ∀ refusal, ending ≠ .raised (.refused refusal))
    (hwaiting : (({ w with loop } : World).errands k).waiting = [])
    (hstart : (({ w with loop } : World).errands k).ready.count .start = 0)
    (hfetched : x.fetches.Returned ∨ ∃ i failure, x.fetches.Fails i failure) :
    Pursues env k (({ w with loop } : World).endWalk k ending)
        { x with phase := .finished, outcome := some ending } ∧
      ∀ id, (({ w with loop } : World).endWalk k ending).lane? id = w.lane? id :=
  ⟨⟨getElem?_modifyWalk_self (w := { w with loop }) h.walk _, h.reads, h.unstopped, hwaiting,
    .finished rfl rfl hunrefused hfetched hstart⟩, fun _ => lane?_pop hnext rfl⟩

theorem carry_unrefused {φ α : Type} {wrap : φ → WalkFault} (h : ∀ f refusal, wrap f ≠ .refused refusal)
    (failure : Ending φ Empty) (refusal : Refusal) :
    (failure.carry wrap : Ending WalkFault α) ≠ .raised (.refused refusal) := by
  cases failure with
  | returned a => exact nomatch a
  | raised f => exact fun heq => h f refusal (Ending.raised.inj heq)
  | cancelled => simp [Ending.carry]

/-- A walk that is over takes no notice. -/
theorem becomes_late (h : Pursues env k w x) (hphase : x.phase = .finished)
    (hwaiting : (({ w with loop } : World).errands k).waiting = [])
    (hstart : (({ w with loop } : World).errands k).ready.count .start = 0) :
    Becomes env k w { w with loop } x := by
  refine ⟨x, ⟨h.walk, h.reads, h.unstopped, hwaiting, ?_⟩,
    .stays (.refl _) (absurd hphase)⟩
  cases h.stage with
  | starting phase _ _ _ _ _ => cases hphase.symm.trans phase
  | fetching phase _ _ _ _ _ _ => cases hphase.symm.trans phase
  | resolving phase _ _ _ _ _ => cases hphase.symm.trans phase
  | finished phase outcome unrefused fetched _ =>
    exact .finished phase outcome unrefused fetched hstart

/-- The walk wakes to the verdict on its requests: all files of the round are added and asked for,
or the walk fails as the first request that failed. -/
theorem becomes_wakeFetch (h : Pursues env k w x) (hinhabited : w.store.Inhabited)
    (hnext : w.loop.next? = some (.walk k (.fetch .wake), loop)) :
    Becomes env k w (({ w with loop } : World).performWalk (env x.resolver) k (.fetch .wake)) x := by
  obtain ⟨hpop, herrands⟩ := pop_fetch hnext
  have hwaiting : (({ w with loop } : World).errands k).waiting = [] := herrands ▸ h.waiting
  have hstep : ({ w with loop } : World).performWalk (env x.resolver) k (.fetch .wake) =
      ({ w with loop } : World).wakeWalk (env x.resolver) k x := by
    simp [performWalk, h.walk]
  rw [hstep]
  cases h.stage with
  | starting _ _ clear _ _ _ => exact absurd hpop (not_next?_of_clear clear)
  | resolving _ _ clear _ _ _ => exact absurd hpop (not_next?_of_clear clear)
  | finished phase _ _ _ start =>
    have hsame : ({ w with loop } : World).wakeWalk (env x.resolver) k x = { w with loop } := by
      simp [wakeWalk, h.unstopped, phase]
    rw [hsame]
    exact becomes_late h phase hwaiting (herrands ▸ start)
  | @fetching missing events phase silent nonempty known running start wake =>
    have hstart : (({ w with loop } : World).errands k).ready.count .start = 0 := herrands ▸ start
    have hlength := running.along.length
    rw [length_fetchScripts] at hlength
    have hmembers : x.fetches.members ≠ [] := by
      intro hnil
      rw [hnil] at hlength
      exact nonempty (List.length_eq_zero_iff.mp hlength.symm)
    obtain ⟨v, hv⟩ : ∃ v, x.fetches.tally.verdict = some v := by
      have hpos := Loop.load_pos_of_next? hpop
      rw [running.wake] at hpos
      cases hv : x.fetches.tally.verdict with
      | none => simp [hv] at hpos
      | some v => exact ⟨v, rfl⟩
    -- Whatever failure the verdict is, a request has come to it.
    have hfails : ∀ failure, v.failure? = some failure →
        Becomes env k w (({ w with loop } : World).endWalk k (failure.carry .fetch)) x := by
      intro failure hfailure
      obtain ⟨part, hpart, hpartial⟩ := running.sound.failed v failure hv hfailure
      obtain ⟨i, hi⟩ := List.mem_iff_getElem?.mp hpart
      obtain ⟨hends, hlanes⟩ := pursues_endWalk h hnext
        (carry_unrefused (by simp : ∀ f refusal, WalkFault.fetch f ≠ .refused refusal) failure)
        hwaiting hstart (.inr ⟨i, failure, part, running.accounts.heard_ended hi, hpartial⟩)
      exact ⟨_, hends, .fetchFails phase (by rw [hv, Option.bind_some, hfailure]) rfl hlanes⟩
    unfold wakeWalk
    rw [if_neg (by simp [h.unstopped])]
    simp only [phase, hv]
    cases v with
    | raised cause => exact hfails _ rfl
    | cancelled => exact hfails _ rfl
    | returned texts =>
      obtain ⟨hreturned, hready, hparked⟩ := (running.finish hpop hv hmembers).clear hv
      have hpoised : Poised env k { w with loop } x :=
        ⟨h.walk, h.reads, h.unstopped, silent, hwaiting, hstart, herrands ▸ wake, ⟨hready, hparked⟩,
          hreturned⟩
      have htexts : texts.length = missing.length := by
        rw [← hlength, ← running.accounts.length_eq, running.sound.returned texts hv,
          List.length_map]
      have hadded := elsewhere_addAll k (missing.zip texts) { w with loop }
      obtain ⟨waiters, hfresh, hpursues⟩ := pursues_resolveRound (hpoised.elsewhere hadded)
        (inhabited_addAll _ hinhabited) fun name hname => contains_addAll <| by
          rw [List.map_fst_zip htexts.ge]
          exact known name hname
      exact ⟨_, hpursues, .resolves phase hv fun p hp =>
        (waiting_le (w := { w with loop }) hadded.grows).trans (hfresh p hp)⟩

section Hearing

variable {waiters : List (FileId × Nat)} {tally : Tally Fault Dependencies} {place : Nat}
  {rest : List WalkJob}

/-- A file that is not resolved yet is nothing to hear of. -/
theorem Hearing.unheard (h : w.Hearing k waiters tally)
    (hready : (w.errands k).ready = .resolved place :: rest)
    (hnone : w.outcomeAt waiters place = none) (hsame : w'.outcomeAt waiters = w.outcomeAt waiters)
    (hready' : (w'.errands k).ready = rest) : w'.Hearing k waiters tally := by
  refine ⟨h.sound, h.length, hsame ▸ h.heard, fun other ending hout => ?_, ?_⟩
  · rw [hsame] at hout
    refine (h.due other ending hout).imp_left fun hdue => ?_
    rw [hready] at hdue
    rw [hready']
    refine (List.mem_cons.mp hdue).resolve_left fun heq => ?_
    cases heq
    rw [hnone] at hout
    cases hout
  · rw [hready', ← h.wake, hready]
    simp

/-- **The walk hears of a file**, and is to wake if that brings the verdict. -/
theorem Hearing.hear (h : w.Hearing k waiters tally)
    (hready : (w.errands k).ready = .resolved place :: rest) {ending : Ending Fault Dependencies}
    (hout : w.outcomeAt waiters place = some ending)
    (hsame : w'.outcomeAt waiters = w.outcomeAt waiters)
    (hready' : (w'.errands k).ready =
      rest ++ if tally.decides place ending then [.wake] else []) :
    w'.Hearing k waiters (tally.hear place ending) := by
  obtain ⟨p, hp, -⟩ := outcomeAt_eq_some.mp hout
  have hlt : place < tally.heard.length := by
    rw [h.length]
    exact (List.getElem?_eq_some_iff.mp hp).1
  have hself : (tally.hear place ending).heard[place]? = some (some ending) := by
    rw [Tally.getElem?_hear, if_pos rfl, List.getElem?_eq_getElem hlt]
    rfl
  have hother : ∀ other, place ≠ other →
      (tally.hear place ending).heard[other]? = tally.heard[other]? := by
    intro other hne
    rw [Tally.getElem?_hear, if_neg hne]
  refine ⟨?_, (Tally.length_hear _ _ _).trans h.length, fun other e hheard => ?_,
    fun other e hcome => ?_, ?_⟩
  · cases hbefore : tally.heard[place] with
    | none =>
      exact h.sound.hear ((List.getElem?_eq_getElem hlt).trans (congrArg some hbefore)) ending
    | some e =>
      have hheard := (List.getElem?_eq_getElem hlt).trans (congrArg some hbefore)
      obtain rfl := Option.some.inj ((h.heard place e hheard).symm.trans hout)
      rw [Tally.hear_again h.sound hheard]
      exact h.sound
  · rw [hsame]
    by_cases hne : place = other
    · subst hne
      rw [hself] at hheard
      cases hheard
      exact hout
    · exact h.heard other e (hother other hne ▸ hheard)
  · rw [hsame] at hcome
    by_cases hne : place = other
    · subst hne
      rw [hcome] at hout
      cases hout
      exact .inr hself
    · rw [hother other hne, hready']
      refine (h.due other e hcome).imp_left fun hdue => ?_
      rw [hready] at hdue
      refine List.mem_append_left _ ((List.mem_cons.mp hdue).resolve_left fun heq => hne ?_)
      cases heq
      rfl
  · have hwake := h.wake
    rw [hready, List.count_cons_of_ne (by simp)] at hwake
    rw [hready', List.count_append, hwake]
    cases hv : tally.verdict with
    | some v => simp [Tally.decides, hv, Tally.hear_of_verdict hv]
    | none => cases hv' : (tally.hear place ending).verdict <;> simp [Tally.decides, hv, hv']

/-- A walk that waits for the files of its round still does when it has heard of one. -/
theorem pursues_hearing (h : Pursues env k w x) (phase : x.phase = .resolving waiters tally)
    {tally' : Tally Fault Dependencies} (hhearing : w'.Hearing k waiters tally')
    (hwalk : w'.walks[k]? = some { x with phase := .resolving waiters tally' })
    (htexts : w'.texts k = w.texts k) (hparked : (w'.errands k).waiting = [])
    (hstart : (w'.errands k).ready.count .start = (w.errands k).ready.count .start) :
    Pursues env k w' { x with phase := .resolving waiters tally' } := by
  have hover : x.phase ≠ .finished := by simp [phase]
  obtain ⟨clear, returned⟩ := h.cleared (by simp [phase]) hover
  refine ⟨hwalk, h.reads, h.unstopped, hparked, .resolving rfl (h.silent hover)
    (by rw [Clear, htexts]; exact clear) returned hhearing (hstart.trans ?_)⟩
  cases h.stage with
  | resolving _ _ _ _ _ start => exact start
  | starting phase' => cases phase.symm.trans phase'
  | fetching phase' => cases phase.symm.trans phase'
  | finished phase' => cases phase.symm.trans phase'

/-- It hears of a file of its round. -/
theorem becomes_heard (h : Pursues env k w x) (phase : x.phase = .resolving waiters tally)
    (hnext : w.loop.next? = some (.walk k (.resolved place), loop)) :
    Becomes env k w (({ w with loop } : World).hearWalk k x place) x := by
  obtain ⟨hpop, htexts⟩ := pop_errand hnext rfl
  obtain ⟨hwaiting', -, hready⟩ := Loop.waiting_next? hpop
  have hwaiting : (({ w with loop } : World).errands k).waiting = [] := hwaiting'.trans h.waiting
  have hstart := (count_of_next hpop).2 .start
  rw [if_neg (by simp), Nat.add_zero] at hstart
  have hearing := h.hearing phase
  unfold hearWalk
  simp only [phase]
  cases hout : w.outcomeAt waiters place with
  | none =>
    have hnone : (waiters[place]?.bind fun p => ({ w with loop } : World).outcome? p.1 p.2) =
        none := hout
    rw [hnone]
    have hsame : x = { x with phase := .resolving waiters tally } := by rw [← phase]
    have hstays : Pursues env k { w with loop } { x with phase := .resolving waiters tally } :=
      pursues_hearing h phase (hearing.unheard hready hout rfl rfl) (hsame ▸ h.walk) htexts hwaiting
        hstart.symm
    exact ⟨x, hsame ▸ hstays, .stays (.refl _) fun _ => by rw [htexts]⟩
  | some ending =>
    have hsome : (waiters[place]?.bind fun p => ({ w with loop } : World).outcome? p.1 p.2) =
        some ending := hout
    rw [hsome]
    simp only
    have hwalk := getElem?_modifyWalk_self (w := { w with loop }) h.walk fun x =>
      { x with phase := .resolving waiters (tally.hear place ending) }
    refine ⟨{ x with phase := .resolving waiters (tally.hear place ending) }, ?_, ?_⟩
    · split
      · rename_i hdecides
        obtain ⟨htexts', herrands⟩ := texts_errands_post (({ w with loop } : World).modifyWalk k
          fun x => { x with phase := .resolving waiters (tally.hear place ending) }) k
          (show WalkJob.wake.errand? = some .wake from rfl)
        refine pursues_hearing h phase (hearing.hear hready hout rfl ?_) hwalk
          (htexts'.trans htexts) ?_ ?_
        · rw [herrands, if_pos hdecides]
          rfl
        · rw [herrands]
          exact hwaiting
        · rw [herrands, Loop.post, List.count_append]
          exact hstart.symm
      · rename_i hdecides
        refine pursues_hearing h phase (hearing.hear hready hout rfl ?_) hwalk htexts hwaiting
          hstart.symm
        rw [if_neg hdecides, List.append_nil]
        rfl
    · refine .hears phase ?_
      split <;> exact .refl _

end Hearing

/-- The walk is to hear of a file: outside a round it does not listen. -/
theorem becomes_resolved (h : Pursues env k w x) {place : Nat}
    (hnext : w.loop.next? = some (.walk k (.resolved place), loop)) :
    Becomes env k w (({ w with loop } : World).performWalk (env x.resolver) k (.resolved place))
      x := by
  obtain ⟨hpop, htexts⟩ := pop_errand hnext rfl
  have hwaiting : (({ w with loop } : World).errands k).waiting = [] :=
    (Loop.waiting_next? hpop).1.trans h.waiting
  obtain ⟨-, hcount⟩ := count_of_next hpop
  have hstart := hcount .start
  have hwake := hcount .wake
  rw [if_neg (by simp), Nat.add_zero] at hstart hwake
  have hfailing : x.phase ≠ .finished →
      Join.failing (({ w with loop } : World).texts k) x.fetches =
        Join.failing (w.texts k) x.fetches := fun _ => by rw [htexts]
  have hstep : ({ w with loop } : World).performWalk (env x.resolver) k (.resolved place) =
      ({ w with loop } : World).hearWalk k x place := by
    simp [performWalk, h.walk]
  have hsame : (∀ waiters tally, x.phase ≠ .resolving waiters tally) →
      ({ w with loop } : World).hearWalk k x place = { w with loop } := by
    intro hphase
    exact hearWalk_cases (P := (· = { w with loop })) rfl
      fun waiters tally _ hp _ => absurd hp (hphase waiters tally)
  rw [hstep]
  cases h.stage with
  | starting phase silent clear returned start wake =>
    rw [hsame (by simp [phase])]
    exact ⟨x, ⟨h.walk, h.reads, h.unstopped, hwaiting, .starting phase silent
      (by rw [Clear, htexts]; exact clear) returned (hstart ▸ start) (hwake ▸ wake)⟩,
      .stays (.refl _) hfailing⟩
  | fetching phase silent nonempty known running start wake =>
    rw [hsame (by simp [phase])]
    exact ⟨x, ⟨h.walk, h.reads, h.unstopped, hwaiting, .fetching phase silent nonempty known
      (htexts ▸ running) (hstart ▸ start) (hwake ▸ wake)⟩, .stays (.refl _) hfailing⟩
  | finished phase _ _ _ start =>
    rw [hsame (by simp [phase])]
    exact becomes_late h phase hwaiting (hstart ▸ start)
  | resolving phase => exact becomes_heard h phase hnext

/-- The walk wakes to the verdict on its files: the next round begins, or the walk fails as one of
them. -/
theorem becomes_wake (h : Pursues env k w x) (hinhabited : w.store.Inhabited)
    (hnext : w.loop.next? = some (.walk k .wake, loop)) :
    Becomes env k w (({ w with loop } : World).performWalk (env x.resolver) k .wake) x := by
  obtain ⟨hpop, htexts⟩ := pop_errand hnext rfl
  have hwaiting : (({ w with loop } : World).errands k).waiting = [] :=
    (Loop.waiting_next? hpop).1.trans h.waiting
  obtain ⟨hpos, hcount⟩ := count_of_next hpop
  have hstart := hcount .start
  have hwake := hcount .wake
  rw [if_neg (by simp), Nat.add_zero] at hstart
  rw [if_pos rfl] at hwake
  have hstep : ({ w with loop } : World).performWalk (env x.resolver) k .wake =
      ({ w with loop } : World).wakeWalk (env x.resolver) k x := by
    simp [performWalk, h.walk]
  rw [hstep]
  cases h.stage with
  | starting _ _ _ _ _ wake => omega
  | fetching _ _ _ _ _ _ wake => omega
  | finished phase _ _ _ start =>
    have hsame : ({ w with loop } : World).wakeWalk (env x.resolver) k x = { w with loop } := by
      simp [wakeWalk, h.unstopped, phase]
    rw [hsame]
    exact becomes_late h phase hwaiting (hstart ▸ start)
  | @resolving waiters tally phase silent clear returned hearing start =>
    have hone := hearing.wake
    obtain ⟨v, hv⟩ : ∃ v, tally.verdict = some v := by
      cases hv : tally.verdict with
      | none => simp [hv, hwake] at hone
      | some v => exact ⟨v, rfl⟩
    rw [hv, Option.isSome_some, if_pos rfl] at hone
    have hfails : ∀ failure, v.failure? = some failure →
        Becomes env k w (({ w with loop } : World).endWalk k (failure.carry .file)) x := by
      intro failure hfailure
      obtain ⟨hends, hlanes⟩ := pursues_endWalk h hnext
        (carry_unrefused (by simp : ∀ f refusal, WalkFault.file f ≠ .refused refusal) failure)
        hwaiting (hstart ▸ start) (.inl returned)
      exact ⟨_, hends, .fileFails phase (by rw [hv, Option.bind_some, hfailure]) rfl hlanes⟩
    unfold wakeWalk
    rw [if_neg (by simp [h.unstopped])]
    simp only [phase, hv]
    cases v with
    | raised fault => exact hfails _ rfl
    | cancelled => exact hfails _ rfl
    | returned infos =>
      unfold finishRound
      simp only
      generalize hnextWalk : ({ x with
        visited := Dependencies.distinct (x.visited ++ x.pending)
        pending := ({ w with loop } : World).unfetched infos
        round := x.round + 1 } : Walk) = next
      generalize hw₁ : (({ w with loop } : World).note (.walked x.pending.length
        (({ w with loop } : World).unfetched infos).length)).modifyWalk k (fun _ => next) = w₁
      have hstore : w₁.store = w.store := by rw [← hw₁]; rfl
      have hwaiting' : ∀ id, w₁.waiting id = w.waiting id := by rw [← hw₁]; exact fun _ => rfl
      have hpoised : Poised env k w₁ next := by
        subst hw₁ hnextWalk
        exact ⟨getElem?_modifyWalk_self (w := ({ w with loop } : World).note _) h.walk _, h.reads,
          h.unstopped, silent, hwaiting, hstart ▸ start, Nat.succ.inj (hwake.symm.trans hone),
          by rw [Clear]; exact htexts ▸ clear, returned⟩
      have hresolver : next.resolver = x.resolver := by rw [← hnextWalk]
      have hround : next.round = x.round + 1 := by rw [← hnextWalk]
      have hkept := (frames_kept k).startRound (env x.resolver) w₁ next
      rw [hstore] at hkept
      obtain ⟨y, hy, hopens⟩ := pursues_startRound hpoised (hstore ▸ hinhabited)
      rw [hresolver] at hy
      exact ⟨y, hy, .continues phase hv hkept hresolver hround ⟨hopens.resolver, hopens.round,
        fun waiters' tally' hp p hmem =>
          (hwaiting' p.1).symm.le.trans (hopens.fresh waiters' tally' hp p hmem),
        hopens.unfailed, hopens.outcome⟩⟩

/-- **What each job of the walk makes of it.** -/
theorem becomes_performWalk (h : Pursues env k w x) (hinhabited : w.store.Inhabited)
    {job : WalkJob} (hnext : w.loop.next? = some (.walk k job, loop)) :
    Becomes env k w (({ w with loop } : World).performWalk (env x.resolver) k job) x := by
  cases job with
  | start => exact becomes_start h hinhabited hnext
  | resolved place => exact becomes_resolved h hnext
  | wake => exact becomes_wake h hinhabited hnext
  | fetch job =>
    by_cases hjob : job = .wake
    · subst hjob
      exact becomes_wakeFetch h hinhabited hnext
    · exact becomes_fetch h hjob hnext

/-! ## Every action -/

variable {a : Action}

/-- An action that carries out no job of the walk adds no file, if nobody else does. -/
theorem kept_apply (hw : w.ProperWalks) (hadd : ∀ name text, a ≠ .add name text)
    (hothers : ∀ j y, j ≠ k → w.walks[j]? = some y → ¬y.IsFetching)
    (htick : a = .tick → ∀ job loop, w.loop.next? ≠ some (.walk k job, loop)) :
    w.store.Kept (w.apply env a).store := by
  by_cases ha : a = .tick
  · subst ha
    change w.store.Kept (w.tick env).store
    unfold tick
    cases hnext : w.loop.next? with
    | none => exact .refl _
    | some p =>
      obtain ⟨job, loop⟩ := p
      cases job with
      | file id job => exact store_performFile { w with loop } id job
      | walk j job =>
        have hjk : j ≠ k := by
          rintro rfl
          exact htick rfl job loop hnext
        exact kept_performWalk (w := { w with loop }) (fun y hy => hothers j y hjk hy) _ job
  · exact Moves.kept (apply_moves hw ha) ha hadd

/-- Opening a gate brings no failure. -/
theorem Pursues.failing_release (h : Pursues env k w x) (hphase : x.phase ≠ .finished)
    (gate : Gate) :
    Join.failing ((w.release gate).texts k) x.fetches = Join.failing (w.texts k) x.fetches := by
  have hclear : w.Clear k →
      Join.failing ((w.release gate).texts k) x.fetches = Join.failing (w.texts k) x.fetches := by
    intro hclear
    rw [texts_release, hclear.eq]
    simp [Join.failing, Loop.release]
  cases h.stage with
  | starting _ _ clear _ _ _ => exact hclear clear
  | resolving _ _ clear _ _ _ => exact hclear clear
  | finished phase _ _ _ _ => exact absurd phase hphase
  | fetching _ _ _ _ running _ _ =>
    rw [texts_release]
    exact running.accounts.failing_release gate

theorem apply_tick_walk (hx : w.walks[k]? = some x) {job : WalkJob}
    (hnext : w.loop.next? = some (.walk k job, loop)) :
    w.apply env .tick = ({ w with loop } : World).performWalk (env x.resolver) k job := by
  simp [apply, tick, hnext, perform, hx]

/-- **What every action makes of the walk**, as long as nobody else adds files and nobody cancels
it. -/
theorem becomes_apply (hw : w.Tidy) (h : Pursues env k w x)
    (hadd : ∀ name text, a ≠ .add name text) (hcancel : a ≠ .cancelWalk k)
    (hothers : ∀ j y, j ≠ k → w.walks[j]? = some y → ¬y.IsFetching) :
    Becomes env k w (w.apply env a) x := by
  rcases apply_cases env (List.getElem?_eq_some_iff.mp h.walk).1 hcancel with
    ⟨rfl, job, loop, hnext⟩ | ⟨gate, rfl⟩ | ⟨helsewhere, htick⟩
  · rw [apply_tick_walk h.walk hnext]
    exact becomes_performWalk h hw.inhabited hnext
  · exact ⟨x, h.release gate, .stays (.refl _) fun hphase => h.failing_release hphase gate⟩
  · have hkept : w.store.Kept (w.apply env a).store := kept_apply hw.walks hadd hothers htick
    exact ⟨x, h.elsewhere helsewhere hw.walks fun name hname => (hkept.contains name).trans hname,
      .stays hkept fun _ => by rw [helsewhere.texts]⟩

/-! ## From the request on -/

/-- Walk `k` was not requested yet: nothing is due to it, or at most that it hears of files. -/
structure Unborn (k : Nat) (w : World) : Prop where
  length : w.walks.length ≤ k
  clear : w.Clear k
  waiting : (w.errands k).waiting = []
  start : (w.errands k).ready.count .start = 0
  wake : (w.errands k).ready.count .wake = 0

theorem unborn_apply (h : Unborn k w) (hlength : (w.apply env a).walks.length ≤ k) :
    Unborn k (w.apply env a) := by
  have hnone : w.walks[k]? = none := List.getElem?_eq_none h.length
  by_cases hown : a = .tick ∧ ∃ job loop, w.loop.next? = some (.walk k job, loop)
  · -- There is no walk to hear of the file.
    obtain ⟨rfl, job, loop, hnext⟩ := hown
    have htick : w.apply env .tick = { w with loop } := by
      simp [apply, tick, hnext, perform, performWalk, hnone]
    rw [htick]
    have herrand : job.errand? = some job → Unborn k { w with loop } := by
      intro hjob
      obtain ⟨hpop, htexts⟩ := pop_errand hnext hjob
      obtain ⟨-, hcount⟩ := count_of_next hpop
      have hstart := hcount .start
      have hwake := hcount .wake
      rw [h.start] at hstart
      rw [h.wake] at hwake
      exact ⟨h.length, by rw [Clear, htexts]; exact h.clear,
        (Loop.waiting_next? hpop).1.trans h.waiting, by omega, by omega⟩
    cases job with
    | fetch job => exact absurd (pop_fetch hnext).1 (not_next?_of_clear h.clear)
    | start => exact herrand rfl
    | resolved place => exact herrand rfl
    | wake => exact herrand rfl
  · by_cases hrelease : ∃ gate, a = .release gate
    · obtain ⟨gate, rfl⟩ := hrelease
      obtain ⟨hready, hwaiting⟩ := errands_release h.waiting gate
      refine ⟨h.length, ?_, hwaiting, hready ▸ h.start, hready ▸ h.wake⟩
      change (w.release gate).Clear k
      rw [Clear, texts_release, h.clear.eq]
      exact ⟨rfl, rfl⟩
    · by_cases hcancel : a = .cancelWalk k
      · subst hcancel
        have hsame : w.apply env (.cancelWalk k) = w := by simp [apply, cancelWalk, hnone]
        rwa [hsame]
      · have helsewhere := elsewhere_apply (w := w) (k := k) env (a := a) ?_ hcancel
          (fun gate hgate => hrelease ⟨gate, hgate⟩)
          fun ha job loop hnext => hown ⟨ha, job, loop, hnext⟩
        · have hstart : ((w.apply env a).errands k).ready.count .start =
              (w.errands k).ready.count .start := helsewhere.count_errand (by simp)
          have hwake : ((w.apply env a).errands k).ready.count .wake =
              (w.errands k).ready.count .wake := helsewhere.count_errand (by simp)
          exact ⟨hlength, helsewhere.clear h.clear, helsewhere.waiting_errands.trans h.waiting,
            hstart.trans h.start, hwake.trans h.wake⟩
        · rintro resolver entries rfl heq
          have hmore : (w.apply env (.walk resolver entries)).walks.length =
              w.walks.length + 1 := by simp [apply, walk, post]
          omega

theorem unborn_run (options : Options) (libName : String) (registries : Nat → Registry)
    (actions : List Action)
    (hlength : ((initial options libName registries).run env actions).walks.length ≤ k) :
    Unborn k ((initial options libName registries).run env actions) := by
  induction actions using List.reverseRec with
  | nil => exact ⟨hlength, ⟨rfl, rfl⟩, rfl, rfl, rfl⟩
  | append_singleton actions a ih =>
    rw [run_concat] at hlength ⊢
    exact unborn_apply (ih ((length_walks_apply env _ a).trans hlength)) hlength

/-- **A walk is requested.** -/
theorem pursues_walk (h : Unborn w.walks.length w) {resolver : Nat}
    (hreads : ∀ text, ∃ result, (env resolver).extract text = .ok result) (entries : List String) :
    Pursues env w.walks.length (w.walk resolver entries).1
      { resolver, pending := Dependencies.distinct entries } := by
  obtain ⟨htexts, herrands⟩ := texts_errands_post ({ w with
    walks := w.walks ++ [{ resolver, pending := Dependencies.distinct entries }] } : World)
    w.walks.length (show WalkJob.start.errand? = some .start from rfl)
  have hrequest : (w.walk resolver entries).1 = ({ w with walks := w.walks ++
      [{ resolver, pending := Dependencies.distinct entries }] } : World).post
        (.walk w.walks.length .start) := rfl
  rw [hrequest]
  refine ⟨List.getElem?_concat_length, hreads, rfl, herrands ▸ h.waiting,
    .starting rfl rfl ?_ (Join.returned_nil rfl) ?_ ?_⟩
  · rw [Clear, htexts]
    exact h.clear
  · rw [herrands, Loop.post, List.count_append]
    have hstart := h.start
    unfold errands agenda at hstart ⊢
    simp [hstart]
  · rw [herrands, Loop.post, List.count_append]
    have hwake := h.wake
    unfold errands agenda at hwake ⊢
    simp [hwake]

/-- In the course of `actions` nobody else adds files, and nobody cancels walk `k` or has one of its
waiters give up. -/
structure Undisturbed (env : Nat → Environment) (k : Nat) (w : World) (actions : List Action) :
    Prop where
  add : ∀ name text, .add name text ∉ actions
  cancel : .cancelWalk k ∉ actions
  others : ∀ before after, actions = before ++ after → ∀ j y, j ≠ k →
    (w.run env before).walks[j]? = some y → ¬y.IsFetching
  giveUp : ∀ before after id n place, actions = before ++ .giveUp id n :: after →
    ¬(w.run env before).store.Listens id n (some ⟨k, place⟩)

namespace Undisturbed

variable {actions before after : List Action}

theorem take (h : Undisturbed env k w (before ++ after)) : Undisturbed env k w before := by
  refine ⟨fun name text hmem => h.add name text (List.mem_append_left _ hmem),
    fun hmem => h.cancel (List.mem_append_left _ hmem), fun first rest hsplit => ?_,
    fun first rest id n place hsplit => ?_⟩
  · exact h.others first (rest ++ after) (by rw [hsplit, List.append_assoc])
  · exact h.giveUp first (rest ++ after) id n place (by rw [hsplit]; simp)

theorem drop (h : Undisturbed env k w (before ++ after)) :
    Undisturbed env k (w.run env before) after := by
  refine ⟨fun name text hmem => h.add name text (List.mem_append_right _ hmem),
    fun hmem => h.cancel (List.mem_append_right _ hmem), fun first rest hsplit => ?_,
    fun first rest id n place hsplit => ?_⟩
  · rw [← run_append]
    exact h.others (before ++ first) rest (by rw [hsplit, List.append_assoc])
  · rw [← run_append]
    exact h.giveUp (before ++ first) rest id n place (by rw [hsplit, List.append_assoc])

theorem append (h : Undisturbed env k w before) (h' : Undisturbed env k (w.run env before) after) :
    Undisturbed env k w (before ++ after) := by
  refine ⟨fun name text hmem => ?_, fun hmem => ?_, fun first rest hsplit => ?_,
    fun first rest id n place hsplit => ?_⟩
  · exact (List.mem_append.mp hmem).elim (h.add name text) (h'.add name text)
  · exact (List.mem_append.mp hmem).elim h.cancel h'.cancel
  · rcases List.append_eq_append_iff.mp hsplit with ⟨middle, rfl, hafter⟩ | ⟨middle, hbefore, -⟩
    · rw [run_append]
      exact h'.others middle rest hafter
    · exact h.others first middle hbefore
  · rcases List.append_eq_append_iff.mp hsplit with ⟨middle, rfl, hafter⟩ | ⟨middle, rfl, hrest⟩
    · rw [run_append]
      exact h'.giveUp middle rest id n place hafter
    · cases middle with
      | nil =>
        have hnow := h'.giveUp [] rest id n place hrest.symm
        rwa [List.append_nil] at hnow
      | cons b middle =>
        rw [List.cons_append, List.cons.injEq] at hrest
        exact h.giveUp first middle id n place (by rw [← hrest.1])

/-- **What one action makes of the walk.** -/
theorem step (h : Undisturbed env k w (before ++ a :: after)) (hw : w.Tidy)
    (hx : Pursues env k (w.run env before) x) :
    Becomes env k (w.run env before) (w.run env (before ++ [a])) x := by
  rw [run_concat]
  exact becomes_apply (tidy_run env hw before) hx (fun name text e => h.add name text (by simp [e]))
    (fun e => h.cancel (by simp [e])) (h.others before (a :: after) rfl)

/-- **What every action keeps** of a walk and its world holds at the end of a run. -/
theorem run {P : World → Walk → Prop} (h : Undisturbed env k w actions) (hw : w.Tidy)
    (hx : Pursues env k w x) (hP : P w x)
    (hstep : ∀ before a after y z, actions = before ++ a :: after →
      Pursues env k (w.run env before) y → Pursues env k (w.run env (before ++ [a])) z →
      Passes k (w.run env before) (w.run env (before ++ [a])) y z →
      P (w.run env before) y → P (w.run env (before ++ [a])) z) :
    ∃ y, Pursues env k (w.run env actions) y ∧ P (w.run env actions) y := by
  induction actions using List.reverseRec with
  | nil => exact ⟨x, hx, hP⟩
  | append_singleton actions a ih =>
    obtain ⟨y, hy, hPy⟩ := ih h.take fun first b rest y z hsplit =>
      hstep first b (rest ++ [a]) y z (by rw [hsplit]; simp)
    obtain ⟨z, hz, hpasses⟩ := h.step hw hy
    exact ⟨z, hz, hstep actions a [] y z rfl hy hz hpasses hPy⟩

/-- A walk that nobody disturbs goes on to stand where it should. -/
theorem pursues (h : Undisturbed env k w actions) (hw : w.Tidy) (hx : Pursues env k w x) :
    ∃ y, Pursues env k (w.run env actions) y := by
  obtain ⟨y, hy, -⟩ := h.run hw hx (P := fun _ _ => True) trivial
    fun _ _ _ _ _ _ _ _ _ _ => trivial
  exact ⟨y, hy⟩

theorem pursues_of (h : Undisturbed env k w actions) (hw : w.Tidy) (hx : Pursues env k w x)
    (hy : (w.run env actions).walks[k]? = some y) : Pursues env k (w.run env actions) y := by
  obtain ⟨z, hz⟩ := h.pursues hw hx
  obtain rfl := Option.some.inj (hy.symm.trans hz.walk)
  exact hz

end Undisturbed

/-- From the world on jobs are carried out again and again, and nobody disturbs walk `k`. -/
structure CarriesOn (env : Nat → Environment) (k : Nat) (w : World) (schedule : Nat → Action) :
    Prop where
  ticks : ∀ n, ∃ m, n ≤ m ∧ schedule m = .tick
  undisturbed : ∀ n, Undisturbed env k w ((List.range n).map schedule)

/-- **What every action keeps** of a walk and its world holds from then on. -/
theorem CarriesOn.keeps {schedule : Nat → Action} {P : World → Walk → Prop}
    (h : CarriesOn env k w schedule) (hw : w.Tidy)
    (hstep : ∀ n y z, Pursues env k (w.after env schedule n) y →
      Passes k (w.after env schedule n) (w.after env schedule (n + 1)) y z →
      P (w.after env schedule n) y → P (w.after env schedule (n + 1)) z)
    {n m : Nat} (hnm : n ≤ m) (hy : Pursues env k (w.after env schedule n) y)
    (hP : P (w.after env schedule n) y) :
    ∃ z, Pursues env k (w.after env schedule m) z ∧ P (w.after env schedule m) z := by
  induction m, hnm using Nat.le_induction with
  | base => exact ⟨y, hy, hP⟩
  | succ m _ ih =>
    obtain ⟨z, hz, hPz⟩ := ih
    have hcalm := h.undisturbed (m + 1)
    rw [List.range_succ, List.map_append, List.map_singleton] at hcalm
    rw [after_eq_run] at hz
    obtain ⟨z', hz', hpasses⟩ := hcalm.step hw hz
    rw [run_concat, ← after_eq_run] at hz' hpasses
    rw [← after_eq_run] at hz
    exact ⟨z', hz', hstep m z z' hz hpasses hPz⟩

end World

end DepGraph
