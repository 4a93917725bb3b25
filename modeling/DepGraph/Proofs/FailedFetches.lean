import DepGraph.Proofs.Rounds

/-!
# A request for a text fails

* `World.FetchFailed` — a request of a walk has failed; `World.Ends` — a walk is over.
* `World.Doomed` — a walk is bound to fail as a request did: `World.doomed_of_first` — as the first
  that failed, `World.Doomed.passes` — whatever happens then, no file is added,
  `World.Doomed.ends` — and it does fail.
* `World.Unadded` — a round has added no file yet.
-/

set_option autoImplicit false

namespace DepGraph

/-- The walk asks for no texts in its round any more. -/
def Walk.Fetched (x : Walk) : Prop :=
  x.phase = .finished ∨ ∃ waiters tally, x.phase = .resolving waiters tally

namespace World

variable {env : Nat → Environment} {w w' : World} {k i : Nat} {x y : Walk} {loop : Loop Job}
  {failure : Ending Cause Empty} {missing : List String}

/-- Request `i` of the last round of walk `k` that asked for any texts has failed. -/
def FetchFailed (w : World) (k i : Nat) (failure : Ending Cause Empty) : Prop :=
  ∃ x, w.walks[k]? = some x ∧ x.fetches.Fails i failure

/-- Walk `k` is over, with this ending. -/
def Ends (w : World) (k : Nat) (ending : Ending WalkFault (List String)) : Prop :=
  ∃ x, w.walks[k]? = some x ∧ x.outcome = some ending

/-- Walk `k`, which is `x`, is bound to fail as a request for a text did, or has. -/
inductive Doomed (w : World) (k : Nat) (failure : Ending Cause Empty) (x : Walk) : Prop
  | failing {missing : List String} (phase : x.phase = .fetching missing)
    (failing : Join.failing (w.texts k) x.fetches = some failure)
  | failed (phase : x.phase = .finished) (outcome : x.outcome = some (failure.carry .fetch))

/-! ## The first failure -/

/-- **A request that has failed** has failed for good: no other round begins. -/
theorem Passes.fails (hp : Passes k w w' x y) (h : Pursues env k w x)
    (hf : x.fetches.Fails i failure) : y.fetches.Fails i failure := by
  cases hp with
  | fetches => exact hf.perform _ _ _
  | begins phase =>
    have hreturned := (h.cleared (by simp [phase]) (by simp [phase])).2
    exact absurd hf (hreturned.not_fails i failure)
  | continues phase =>
    have hreturned := (h.cleared (by simp [phase]) (by simp [phase])).2
    exact absurd hf (hreturned.not_fails i failure)
  | stays => exact hf
  | resolves => exact hf
  | hears => exact hf
  | fetchFails => exact hf
  | fileFails => exact hf

/-- Before the walk wakes, a request fails only as it is answered. -/
theorem Pursues.answer (h : Pursues env k w x) (hphase : x.phase = .fetching missing)
    (hf : x.fetches.Fails i failure) : ∃ name, missing[i]? = some name ∧
      ((env x.resolver).source ⟨k, x.round, i⟩ name).outcome.failure? = some failure := by
  obtain ⟨events, hrunning⟩ := h.running hphase
  obtain ⟨e, hm, he⟩ := hf
  obtain ⟨s, hs, hcourse⟩ := hrunning.along.member hm
  rw [getElem?_fetchScripts, Option.map_eq_some_iff] at hs
  obtain ⟨name, hname, rfl⟩ := hs
  refine ⟨name, hname, ?_⟩
  rw [← ending_fetchScript, ← hcourse.ending_eq]
  exact he

/-- **From the first request that fails on** the walk is bound to fail as that one did. -/
theorem doomed_of_first (hx : Pursues env k w x) (hy : Pursues env k w' y)
    (hp : Passes k w w' x y) (hnone : ∀ j f, ¬x.fetches.Fails j f)
    (hf : y.fetches.Fails i failure) : ∃ missing, x.phase = .fetching missing ∧
      y.phase = .fetching missing ∧ y.resolver = x.resolver ∧ y.round = x.round ∧
      w.store.Kept w'.store ∧ Doomed w' k failure y := by
  cases hp with
  | begins _ _ opens => exact absurd hf (opens.unfailed i failure)
  | continues _ _ _ _ _ opens => exact absurd hf (opens.unfailed i failure)
  | stays => exact absurd hf (hnone i failure)
  | resolves => exact absurd hf (hnone i failure)
  | hears => exact absurd hf (hnone i failure)
  | fetchFails => exact absurd hf (hnone i failure)
  | fileFails => exact absurd hf (hnone i failure)
  | @fetches job rest kept next texts =>
    obtain rfl : job = .turn i := hf.of_perform.resolve_left (hnone i failure)
    cases hx.stage with
    | starting _ _ clear _ _ _ => exact absurd next (not_next?_of_clear clear)
    | resolving _ _ clear _ _ _ => exact absurd next (not_next?_of_clear clear)
    | finished _ _ _ fetched _ =>
      rcases fetched with hreturned | ⟨j, f, hearlier⟩
      · exact absurd hf ((hreturned.perform id rest (.turn i)).not_fails i failure)
      · exact absurd hearlier (hnone j f)
    | @fetching missing events phase =>
      refine ⟨missing, phase, phase, rfl, rfl, kept, .failing phase ?_⟩
      obtain ⟨events', hrunning⟩ := hy.running
        (show x.phase = .fetching missing from phase)
      obtain ⟨e, hm, he⟩ := hf
      -- Whoever else the walk could fail as would have failed before.
      cases hnow : Join.failing (w'.texts k) (x.fetches.perform id rest (.turn i)).2.2 with
      | none =>
        have hreturned := hrunning.accounts.failing_none hrunning.sound hnow hm
        rw [he] at hreturned
        cases hreturned
      | some first =>
        obtain ⟨j, e', hm', he'⟩ := hrunning.accounts.failing_some hrunning.sound hnow
        have hj : Join.Fails (x.fetches.perform id rest (.turn i)).2.2 j first := ⟨e', hm', he'⟩
        have hturn := hj.of_perform.resolve_left (hnone j first)
        cases hturn
        obtain rfl : e = e' := by simpa [hm] using hm'
        rw [← he, ← he']

/-! ## What becomes of the walk -/

theorem Doomed.phase (hd : Doomed w k failure x) :
    (∃ missing, x.phase = .fetching missing) ∨ x.phase = .finished := by
  cases hd with
  | failing phase _ => exact .inl ⟨_, phase⟩
  | failed phase _ => exact .inr phase

/-- **Whatever an action makes of the walk**, no file is added, and the walk is bound to fail so. -/
theorem Doomed.passes (hd : Doomed w k failure x) (h : Pursues env k w x)
    (hp : Passes k w w' x y) : w.store.Kept w'.store ∧ Doomed w' k failure y := by
  have hphase := hd.phase
  cases hp with
  | stays kept hfailing =>
    refine ⟨kept, ?_⟩
    cases hd with
    | failing phase hf => exact .failing phase ((hfailing (by simp [phase])).trans hf)
    | failed phase outcome => exact .failed phase outcome
  | fetches kept next texts =>
    refine ⟨kept, ?_⟩
    cases hd with
    | failing phase hf =>
      obtain ⟨events, hrunning⟩ := h.running phase
      exact .failing phase (texts ▸ hrunning.accounts.failing_perform next hf)
    | failed phase outcome => exact .failed phase outcome
  | resolves phase verdict _ =>
    cases hd with
    | failing _ hf =>
      rw [Join.failing_of_verdict verdict] at hf
      cases hf
    | failed phase' _ => cases phase.symm.trans phase'
  | fetchFails phase verdict store _ =>
    refine ⟨store ▸ .refl _, ?_⟩
    cases hd with
    | failing _ hf =>
      obtain ⟨v, hv, hfailure⟩ := Option.bind_eq_some_iff.mp verdict
      rw [Join.failing_of_verdict hv, hfailure] at hf
      cases hf
      exact .failed rfl rfl
    | failed phase' _ => cases phase.symm.trans phase'
  | begins phase => simp [phase] at hphase
  | hears phase => simp [phase] at hphase
  | continues phase => simp [phase] at hphase
  | fileFails phase => simp [phase] at hphase

/-- The walk can have no other outcome. -/
theorem Doomed.outcome (hd : Doomed w k failure x) (h : Pursues env k w x)
    {ending : Ending WalkFault (List String)} (hending : x.outcome = some ending) :
    ending = failure.carry .fetch := by
  cases hd with
  | failing phase _ =>
    rw [h.silent (by simp [phase])] at hending
    cases hending
  | failed _ outcome => exact Option.some.inj (hending.symm.trans outcome)

/-! ## It does fail -/

/-- Hearing of a request that failed brings the verdict. -/
theorem decided_of_hear (h : Pursues env k w x) (hphase : x.phase = .fetching missing)
    (hnext : w.loop.next? = some (.walk k (.fetch (.hear i)), loop))
    (hf : x.fetches.Fails i failure) : ∃ y, (w.apply env .tick).walks[k]? = some y ∧
      y.phase = .fetching missing ∧ y.fetches.tally.verdict.isSome := by
  obtain ⟨e, hm, he⟩ := hf
  refine ⟨{ x with fetches := { x.fetches with tally := x.fetches.tally.hear i e } }, ?_, hphase, ?_⟩
  · rw [apply_tick_walk h.walk hnext]
    have hstep : ∀ {J : Type} (wrap : JoinJob → J) (loop : Loop J),
        (x.fetches.perform wrap loop (.hear i)).2.2 =
          { x.fetches with tally := x.fetches.tally.hear i e } := by
      intro J wrap loop
      simp [Join.perform, Join.hear, hm, Member.ending?]
    simp only [performWalk, h.walk, hstep]
    exact getElem?_modifyWalk_self (w := { w with loop := _ }) h.walk _
  · cases hv : x.fetches.tally.verdict with
    | some v => simp [Tally.hear_of_verdict hv]
    | none =>
      obtain ⟨v, hverdict, -⟩ := Tally.hear_failure hv i he
      simp [hverdict]

/-- Waking to a failure ends the walk. -/
theorem ends_of_wakeFetch (h : Pursues env k w x) (hphase : x.phase = .fetching missing)
    (hf : Join.failing (w.texts k) x.fetches = some failure)
    (hnext : w.loop.next? = some (.walk k (.fetch .wake), loop)) :
    (w.apply env .tick).Ends k (failure.carry .fetch) := by
  obtain ⟨events, hrunning⟩ := h.running hphase
  have hpos := Loop.load_pos_of_next? (pop_fetch hnext).1
  rw [hrunning.wake] at hpos
  rw [apply_tick_walk h.walk hnext]
  simp only [performWalk, h.walk, wakeWalk, h.unstopped, hphase]
  cases hv : x.fetches.tally.verdict with
  | none => simp [hv] at hpos
  | some v =>
    rw [Join.failing_of_verdict hv] at hf
    cases v with
    | returned texts => cases hf
    | raised cause =>
      cases hf
      exact ⟨_, getElem?_modifyWalk_self (w := { w with loop }) h.walk _, rfl⟩
    | cancelled =>
      cases hf
      exact ⟨_, getElem?_modifyWalk_self (w := { w with loop }) h.walk _, rfl⟩

variable {schedule : Nat → Action}

/-- **A walk that is bound to fail fails.** -/
theorem Doomed.ends (hd : Doomed w k failure x) (h : Pursues env k w x) (hw : w.Tidy)
    (hcarries : CarriesOn env k w schedule) :
    ∃ n, (w.after env schedule n).Ends k (failure.carry .fetch) := by
  have hat : ∀ {n m z}, n ≤ m → Pursues env k (w.after env schedule n) z →
      Doomed (w.after env schedule n) k failure z → ∃ y, Pursues env k (w.after env schedule m) y ∧
        Doomed (w.after env schedule m) k failure y := by
    intro n m z hnm hz hdz
    exact hcarries.keeps hw (P := fun w x => Doomed w k failure x)
      (fun _ _ _ hy hp hdy => (hdy.passes hy hp).2) hnm hz hdz
  have hreach : ∀ {n job}, job ∈ ((w.after env schedule n).texts k).ready →
      ∃ m loop, n ≤ m ∧ schedule m = .tick ∧
        (w.after env schedule m).loop.next? = some (.walk k (.fetch job), loop) := by
    intro n job hjob
    obtain ⟨before, rest, hsplit⟩ := List.append_of_mem (due_of_texts hjob)
    obtain ⟨m, hnm, htick, loop, hnext⟩ := tick_reaches hw hcarries.ticks hsplit
    exact ⟨m, loop, hnm, htick, hnext⟩
  -- Once there is a verdict, the walk wakes to it.
  have hdecided : ∀ {n y missing}, Pursues env k (w.after env schedule n) y →
      Doomed (w.after env schedule n) k failure y → y.phase = .fetching missing →
      y.fetches.tally.verdict.isSome → ∃ m, (w.after env schedule m).Ends k (failure.carry .fetch)
      := by
    intro n y missing hy hdy hphase hv
    obtain ⟨events, hrunning⟩ := hy.running hphase
    have hload := hrunning.wake
    rw [if_pos hv] at hload
    have hwake : .wake ∈ ((w.after env schedule n).texts k).ready := by
      refine (Loop.mem_of_load (by omega)).resolve_right ?_
      rintro ⟨gate, hwaits⟩
      obtain ⟨-, i, _, _, hi, -⟩ := hrunning.accounts.waiting _ _ hwaits
      cases hi
    obtain ⟨m, loop, hnm, htick, hnext⟩ := hreach hwake
    obtain ⟨z, hz, hdz⟩ := hat hnm hy hdy
    cases hdz with
    | failed _ outcome => exact ⟨m, z, hz.walk, outcome⟩
    | failing phase hf =>
      refine ⟨m + 1, ?_⟩
      rw [after, htick]
      exact ends_of_wakeFetch hz phase hf hnext
  cases hd with
  | failed _ outcome => exact ⟨0, x, h.walk, outcome⟩
  | @failing missing phase hf =>
    cases hv : x.fetches.tally.verdict with
    | some v => exact hdecided (n := 0) h (.failing phase hf) phase (by simp [hv])
    | none =>
      -- The walk is to hear of the request that failed first.
      obtain ⟨job, hjob, htidings⟩ :=
        List.exists_of_findSome?_eq_some (Join.failing_eq_some_of_none hv hf)
      obtain ⟨i, e, rfl, hm, he⟩ := Join.tidings_eq_some.mp htidings
      obtain ⟨m, loop, hnm, htick, hnext⟩ := hreach (n := 0) hjob
      obtain ⟨z, hz, hdz, hfails⟩ := hcarries.keeps hw
        (P := fun w x => Doomed w k failure x ∧ x.fetches.Fails i failure)
        (fun _ _ _ hy hp hdy => ⟨(hdy.1.passes hy hp).2, hp.fails hy hdy.2⟩) hnm h
        ⟨.failing phase hf, ⟨e, hm, he⟩⟩
      cases hdz with
      | failed _ outcome => exact ⟨m, z, hz.walk, outcome⟩
      | @failing missing' phase' hf' =>
        obtain ⟨y, hy, hyphase, hyv⟩ := decided_of_hear hz phase' hnext hfails
        obtain ⟨y', hy', hdy'⟩ := hat (Nat.le_succ m) hz (.failing phase' hf')
        rw [← htick] at hy
        obtain rfl := Option.some.inj (hy.symm.trans hy'.walk)
        exact hdecided hy' hdy' hyphase hyv

/-! ## The store before a round -/

theorem Passes.round_le (hp : Passes k w w' x y) : x.round ≤ y.round := by
  cases hp with
  | begins _ _ opens => exact opens.round.ge
  | continues _ _ _ _ round opens =>
    have hnext := opens.round
    omega
  | _ => exact le_rfl

/-- Files are added only when all texts of a round have come. -/
theorem Passes.kept (hp : Passes k w w' x y) : w.store.Kept w'.store ∨ y.Fetched := by
  cases hp with
  | resolves => exact .inr (.inr ⟨_, _, rfl⟩)
  | stays kept _ => exact .inl kept
  | fetches kept _ _ => exact .inl kept
  | begins _ kept _ => exact .inl kept
  | hears _ kept => exact .inl kept
  | continues _ _ kept => exact .inl kept
  | fetchFails _ _ store _ => exact .inl (store ▸ .refl _)
  | fileFails _ _ store _ => exact .inl (store ▸ .refl _)

/-- A walk asks for texts once in a round. -/
theorem Passes.fetched (hp : Passes k w w' x y) (hround : y.round = x.round) (hx : x.Fetched) :
    y.Fetched := by
  cases hp with
  | stays => exact hx
  | fetches => exact hx
  | begins phase => simp [Walk.Fetched, phase] at hx
  | resolves => exact .inr ⟨_, _, rfl⟩
  | hears => exact .inr ⟨_, _, rfl⟩
  | continues _ _ _ _ round opens =>
    have hnext := opens.round
    omega
  | fetchFails => exact .inl rfl
  | fileFails => exact .inl rfl

/-- In round `q` the walk has added no file to the store, unless it has asked for all texts. -/
def Unadded (s : Store) (q : Nat) (w : World) (x : Walk) : Prop :=
  q ≤ x.round ∧ (x.round = q → s.Kept w.store ∨ x.Fetched)

theorem Passes.unadded {s : Store} {q : Nat} (hp : Passes k w w' x y) (h : Unadded s q w x) :
    Unadded s q w' y := by
  have hle := hp.round_le
  refine ⟨h.1.trans hle, fun hround => ?_⟩
  have hx : x.round = q := le_antisymm (hround ▸ hle) h.1
  rcases h.2 hx with hkept | hfetched
  · exact hp.kept.imp_left hkept.trans
  · exact .inr (hp.fetched (hround.trans hx.symm) hfetched)

/-- **Until all texts of a round have come**, the store is as it was before the round. -/
theorem kept_since {actions rest : List Action} {b : Action} {z : Walk} (hw : w.Tidy)
    (hx : Pursues env k w x) (hcalm : Undisturbed env k w (actions ++ b :: rest))
    (hy : (w.run env (actions ++ [b])).walks[k]? = some y)
    (hz : (w.run env (actions ++ b :: rest)).walks[k]? = some z) (hround : y.round = z.round)
    (hphase : z.phase = .fetching missing) :
    (w.run env actions).store.Kept (w.run env (actions ++ b :: rest)).store := by
  have hsplit : actions ++ b :: rest = (actions ++ [b]) ++ rest := by simp
  obtain ⟨x₁, hx₁⟩ := hcalm.take.pursues hw hx
  obtain ⟨y', hy', hp⟩ := hcalm.step hw hx₁
  obtain rfl := Option.some.inj (hy.symm.trans hy'.walk)
  have hbase : Unadded (w.run env actions).store z.round (w.run env (actions ++ [b])) y :=
    ⟨hround.ge, fun _ => hp.kept⟩
  rw [hsplit] at hcalm hz ⊢
  rw [run_append] at hz ⊢
  obtain ⟨z', hz', hunadded⟩ := hcalm.drop.run (tidy_run env hw _) hy' hbase
    fun _ _ _ _ _ _ _ _ hp h => hp.unadded h
  obtain rfl := Option.some.inj (hz.symm.trans hz'.walk)
  refine (hunadded.2 rfl).resolve_right ?_
  simp [Walk.Fetched, hphase]

end World

end DepGraph
