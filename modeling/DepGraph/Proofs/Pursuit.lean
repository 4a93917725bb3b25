import DepGraph.Proofs.Agenda

/-!
# Where a walk stands

A walk that nobody cancels begins, waits for texts, waits for files, and goes on to the next round
until it has an outcome. What is due to it at each stage is known exactly, so that everything that
one of its jobs can do is known too.

* `Tally.hear_again`, `Join.Returned`, `Join.Fails` — what is heard twice, and how members have
  ended.
* `World.texts`, `World.errands` — the jobs of the texts that a walk fetches, and whatever else is
  due to it.
* `World.Hearing` — a walk is to hear of every file of its round once it is resolved.
* `World.Staged` — what is due to a walk at each stage; `World.Pursues` — of a walk of a world.
* `World.Pursues.elsewhere`, `World.Pursues.release` — what the walk has no part in leaves it where
  it stands.
-/

set_option autoImplicit false

namespace DepGraph

/-! ## Joins whose members have returned -/

namespace Tally

variable {φ α : Type} {t : Tally φ α}

/-- Nothing comes of hearing the same again. -/
theorem hear_again (ht : t.Sound) {i : Nat} {e : Ending φ α} (h : t.heard[i]? = some (some e)) :
    t.hear i e = t := by
  obtain ⟨hlt, hget⟩ := List.getElem?_eq_some_iff.mp h
  have hheard : t.heard.set i (some e) = t.heard := by
    rw [← hget]
    exact List.set_getElem_self hlt
  obtain ⟨heard, verdict⟩ := t
  cases verdict with
  | some v => simpa only [hear, mk.injEq, and_true] using hheard
  | none =>
    -- A return brings no verdict while somebody is not heard of.
    have hunheard : none ∈ heard :=
      (ht.unheard rfl).resolve_left fun hnil => (List.ne_nil_of_mem (List.mem_of_getElem? h)) hnil
    obtain ⟨a, rfl⟩ := Ending.failure?_eq_none.mp (ht.undecided rfl e (List.mem_of_getElem? h))
    have hvalues : values? heard = none := by
      cases hs : values? heard with
      | none => rfl
      | some values =>
        rw [values?_eq_some.mp hs] at hunheard
        simp at hunheard
    have hset : heard.set i (some (.returned a)) = heard := hheard
    simp [hear, hset, judge, hvalues]

end Tally

namespace Join

variable {ε φ α J : Type} {join : Join ε φ α} {loop : Loop JoinJob} {scripts : List (Script ε φ α)}
  {events : Nat → List ε}

/-- Every member has returned. -/
def Returned (join : Join ε φ α) : Prop :=
  ∀ (i : Nat) (m : Member ε φ α), join.members[i]? = some m → ∃ a, m = .ended (.returned a)

/-- Member `i` has failed. -/
def Fails (join : Join ε φ α) (i : Nat) (failure : Ending φ Empty) : Prop :=
  ∃ e, join.members[i]? = some (.ended e) ∧ e.failure? = some failure

theorem Returned.not_fails (h : join.Returned) (i : Nat) (failure : Ending φ Empty) :
    ¬join.Fails i failure := by
  rintro ⟨e, hm, he⟩
  obtain ⟨a, ha⟩ := h i _ hm
  cases ha
  cases he

theorem returned_nil (h : join.members = []) : join.Returned := by
  intro i m hm
  simp [h] at hm

/-- Who has returned has returned for good. -/
theorem Returned.perform (h : join.Returned) (wrap : JoinJob → J) (loop : Loop J) (job : JoinJob) :
    (join.perform wrap loop job).2.2.Returned := by
  intro i m hm
  have hlt : i < join.members.length := by
    rw [← join.length_members_perform wrap loop job]
    exact (List.getElem?_eq_some_iff.mp hm).1
  obtain ⟨a, ha⟩ := h i _ (List.getElem?_eq_getElem hlt)
  have hstays := ended_stays ((List.getElem?_eq_getElem hlt).trans (congrArg some ha)) wrap loop job
  exact ⟨a, Option.some.inj (hm.symm.trans hstays)⟩

/-- Who has failed has failed for good. -/
theorem Fails.perform {i : Nat} {failure : Ending φ Empty} (h : join.Fails i failure)
    (wrap : JoinJob → J) (loop : Loop J) (job : JoinJob) :
    (join.perform wrap loop job).2.2.Fails i failure := by
  obtain ⟨e, hm, he⟩ := h
  exact ⟨e, ended_stays hm wrap loop job, he⟩

/-- A job lets nobody fail but the member whose turn it is. -/
theorem Fails.of_perform {loop : Loop JoinJob} {job : JoinJob} {i : Nat} {failure : Ending φ Empty}
    (h : (join.perform id loop job).2.2.Fails i failure) : join.Fails i failure ∨ job = .turn i := by
  by_cases hjob : job = .turn i
  · exact .inr hjob
  · obtain ⟨e, hm, he⟩ := h
    rw [members_perform loop hjob] at hm
    exact .inl ⟨e, hm, he⟩

theorem not_fails_ofScripts (i : Nat) (failure : Ending φ Empty) :
    ¬(ofScripts scripts : Join ε φ α).Fails i failure := by
  rintro ⟨e, hm, -⟩
  simp [ofScripts] at hm

/-- With the verdict that all have returned nothing is left to do. -/
theorem Over.clear (h : Over scripts events loop join) {values : List α}
    (hv : join.tally.verdict = some (.returned values)) :
    join.Returned ∧ loop.ready = [] ∧ loop.waiting = [] := by
  have hheard : ∀ (i : Nat) (m : Member ε φ α), join.members[i]? = some m →
      ∃ a, join.tally.heard[i]? = some (some (.returned a)) := by
    intro i m hm
    have hlt : i < join.tally.heard.length := by
      rw [h.accounts.length_eq]
      exact (List.getElem?_eq_some_iff.mp hm).1
    rw [h.sound.returned values hv, List.length_map] at hlt
    refine ⟨values[i], ?_⟩
    simp [h.sound.returned values hv, hlt]
  have hreturned : join.Returned := by
    intro i m hm
    obtain ⟨a, ha⟩ := hheard i m hm
    exact ⟨a, Option.some.inj (hm.symm.trans (h.accounts.heard_ended ha))⟩
  -- A member that was heard of has no job, and there are no other jobs.
  have hload : ∀ job, loop.load job = 0 := by
    have hseat : ∀ i, loop.load (.turn i) = 0 ∧ loop.load (.hear i) = 0 := by
      intro i
      have hs := h.accounts.seated i
      cases hm : join.members[i]? with
      | none =>
        rw [hm] at hs
        exact ⟨hs.1, hs.2.1⟩
      | some m =>
        obtain ⟨a, ha⟩ := hheard i m hm
        obtain ⟨b, rfl⟩ := hreturned i m hm
        rw [hm, ha] at hs
        obtain ⟨hturn, -, ⟨-, hnone⟩ | ⟨hhear, -⟩⟩ := hs
        · cases hnone
        · exact ⟨hturn, hhear⟩
    intro job
    cases job with
    | launch => exact h.launch
    | turn i => exact (hseat i).1
    | hear i => exact (hseat i).2
    | wake => exact h.wake
  refine ⟨hreturned, List.eq_nil_iff_forall_not_mem.mpr fun job hjob => ?_,
    List.eq_nil_iff_forall_not_mem.mpr fun p hp => ?_⟩
  · exact absurd (hload job) (Loop.load_pos_of_ready hjob).ne'
  · obtain ⟨-, i, farewell, rest, -, hm⟩ := h.accounts.waiting p.1 p.2 hp
    obtain ⟨a, ha⟩ := hreturned i _ hm
    cases ha

end Join

/-! ## What is due to a walk -/

/-- A job other than those of the texts that a walk fetches. -/
def WalkJob.errand? : WalkJob → Option WalkJob
  | .fetch _ => none
  | job => some job

theorem WalkJob.count_resolved {job : WalkJob} (h : ∀ place, job ≠ .resolved place)
    (places : List Nat) : (places.map WalkJob.resolved).count job = 0 := by
  refine List.count_eq_zero.mpr fun hmem => ?_
  obtain ⟨place, -, rfl⟩ := List.mem_map.mp hmem
  exact h place rfl

namespace World

variable {env : Nat → Environment} {w w' : World} {k : Nat} {x : Walk} {loop : Loop Job}

/-- The jobs of the texts that walk `k` fetches. -/
def texts (w : World) (k : Nat) : Loop JoinJob := (w.agenda k).select WalkJob.fetch?

/-- Whatever else is due to walk `k`. -/
def errands (w : World) (k : Nat) : Loop WalkJob := (w.agenda k).select WalkJob.errand?

/-- The walk has asked for no text that has not come. -/
def Clear (w : World) (k : Nat) : Prop := (w.texts k).ready = [] ∧ (w.texts k).waiting = []

theorem due_of_texts {job : JoinJob} (h : job ∈ (w.texts k).ready) :
    .walk k (.fetch job) ∈ w.loop.ready :=
  mem_agenda.mp ((Loop.mem_select WalkJob.fetch?_unwraps).mp h)

theorem due_of_errands {job : WalkJob} (h : job ∈ (w.errands k).ready) :
    .walk k job ∈ w.loop.ready := by
  obtain ⟨job', hjob, herrand⟩ := List.mem_filterMap.mp h
  obtain rfl : job' = job := by
    cases job' <;> cases herrand <;> rfl
  exact mem_agenda.mp hjob

theorem Clear.eq (h : w.Clear k) : w.texts k = { opened := w.loop.opened } := by
  have hopened : (w.texts k).opened = w.loop.opened := rfl
  obtain ⟨hready, hwaiting⟩ := h
  generalize w.texts k = texts at *
  obtain ⟨ready, waiting, opened⟩ := texts
  subst hready hwaiting hopened
  rfl

theorem not_next?_of_clear (h : w.Clear k) {job : JoinJob} {rest : Loop JoinJob} :
    (w.texts k).next? ≠ some (job, rest) := by
  rw [h.eq]
  nofun

theorem texts_errands_post {job : WalkJob} (w : World) (k : Nat) (h : job.errand? = some job) :
    (w.post (.walk k job)).texts k = w.texts k ∧
      (w.post (.walk k job)).errands k = (w.errands k).post job := by
  have hfetch : job.fetch? = none := by
    cases job <;> first | rfl | cases h
  simp [texts, errands, agenda, post, h, hfetch]

theorem texts_errands_postAll (w : World) (k : Nat) (places : List Nat) :
    let w' := { w with loop := w.loop.postAll (places.map fun i => .walk k (.resolved i)) }
    w'.texts k = w.texts k ∧ w'.errands k = (w.errands k).postAll (places.map .resolved) := by
  simp [texts, errands, agenda, List.filterMap_map, Function.comp_def, WalkJob.fetch?,
    WalkJob.errand?]

/-- A job of the texts is carried out. -/
theorem pop_fetch {job : JoinJob} (h : w.loop.next? = some (.walk k (.fetch job), loop)) :
    (w.texts k).next? = some (job, ({ w with loop } : World).texts k) ∧
      ({ w with loop } : World).errands k = w.errands k := by
  have hagenda := next?_select h (Job.walk?_walk k _)
  exact ⟨next?_select hagenda rfl, select_next? hagenda rfl⟩

/-- Another job of the walk is carried out. -/
theorem pop_errand {job : WalkJob} (h : w.loop.next? = some (.walk k job, loop))
    (hjob : job.errand? = some job) :
    (w.errands k).next? = some (job, ({ w with loop } : World).errands k) ∧
      ({ w with loop } : World).texts k = w.texts k := by
  have hagenda := next?_select h (Job.walk?_walk k _)
  have hfetch : job.fetch? = none := by
    cases job <;> first | rfl | cases hjob
  exact ⟨next?_select hagenda hjob, select_next? hagenda hfetch⟩

/-- The texts of the walk are carried on with on their part of the loop. -/
theorem texts_perform {ε φ α : Type} (w : World) (k : Nat) (join : Join ε φ α) (job : JoinJob) :
    let done := join.perform (fun j => .walk k (.fetch j)) w.loop job
    (done.1, ({ w with loop := done.2.1 } : World).texts k, done.2.2) =
        join.perform id (w.texts k) job ∧
      ({ w with loop := done.2.1 } : World).errands k = w.errands k := by
  have hagenda : Prod.map id (Prod.map (Loop.select (Job.walk? k)) id) _ =
      join.perform WalkJob.fetch (w.agenda k) job :=
    Join.perform_select ((Job.walk?_unwraps k).carries WalkJob.fetch) w.loop join job
  have htexts : Prod.map id (Prod.map (Loop.select WalkJob.fetch?) id)
      (join.perform WalkJob.fetch (w.agenda k) job) = join.perform id (w.texts k) job :=
    Join.perform_select (WalkJob.fetch?_unwraps.carries id) (w.agenda k) join job
  have herrands : (join.perform WalkJob.fetch (w.agenda k) job).2.1.select WalkJob.errand? =
      w.errands k :=
    Join.perform_select_none (fun _ => rfl) (w.agenda k) join job
  rw [← hagenda] at htexts herrands
  exact ⟨htexts, herrands⟩

namespace Elsewhere

variable (h : Elsewhere k w w')
include h

theorem texts : w'.texts k = w.texts k := by
  obtain ⟨places, hagenda⟩ := h.agenda
  simp [World.texts, hagenda, List.filterMap_map, Function.comp_def, WalkJob.fetch?]

theorem errands :
    ∃ places : List Nat, w'.errands k = (w.errands k).postAll (places.map .resolved) := by
  obtain ⟨places, hagenda⟩ := h.agenda
  refine ⟨places, ?_⟩
  simp [World.errands, hagenda, List.filterMap_map, Function.comp_def, WalkJob.errand?]

theorem clear (hclear : w.Clear k) : w'.Clear k := by
  unfold Clear
  rw [h.texts]
  exact hclear

/-- Nothing comes to be due but that the walk hears of files. -/
theorem count_errand {job : WalkJob} (hjob : ∀ place, job ≠ .resolved place) :
    (w'.errands k).ready.count job = (w.errands k).ready.count job := by
  obtain ⟨places, herrands⟩ := h.errands
  rw [herrands, Loop.postAll, List.count_append, WalkJob.count_resolved hjob, Nat.add_zero]

theorem waiting_errands : (w'.errands k).waiting = (w.errands k).waiting := by
  obtain ⟨places, herrands⟩ := h.errands
  rw [herrands]
  rfl

theorem mem_errands {job : WalkJob} (hjob : job ∈ (w.errands k).ready) :
    job ∈ (w'.errands k).ready := by
  obtain ⟨places, herrands⟩ := h.errands
  rw [herrands]
  exact List.mem_append_left _ hjob

end Elsewhere

/-! ## Where it stands -/

/-- What the waiter at a place has come to. -/
def outcomeAt (w : World) (waiters : List (FileId × Nat)) (place : Nat) :
    Option (Ending Fault Dependencies) :=
  waiters[place]?.bind fun p => w.outcome? p.1 p.2

/-- A walk that waits for `waiters` has heard of nothing but what they have come to, and is to hear
of all else that they have come to. -/
structure Hearing (w : World) (k : Nat) (waiters : List (FileId × Nat))
    (tally : Tally Fault Dependencies) : Prop where
  sound : tally.Sound
  length : tally.heard.length = waiters.length
  heard : ∀ place ending, tally.heard[place]? = some (some ending) →
    w.outcomeAt waiters place = some ending
  due : ∀ place ending, w.outcomeAt waiters place = some ending →
    .resolved place ∈ (w.errands k).ready ∨ tally.heard[place]? = some (some ending)
  wake : (w.errands k).ready.count .wake = if tally.verdict.isSome then 1 else 0

/-- What is due to walk `k`, which is `x` and which nobody has cancelled, at each of its stages. -/
inductive Staged (env : Nat → Environment) (k : Nat) (w : World) (x : Walk) : Prop
  /-- It is to begin. -/
  | starting (phase : x.phase = .starting) (silent : x.outcome = none) (clear : w.Clear k)
    (returned : x.fetches.Returned) (start : (w.errands k).ready.count .start = 1)
    (wake : (w.errands k).ready.count .wake = 0)
  /-- It waits for the texts of all files of its round that the store lacks. -/
  | fetching {missing : List String} {events : Nat → List Event} (phase : x.phase = .fetching missing)
    (silent : x.outcome = none) (nonempty : missing ≠ [])
    (known : ∀ name ∈ x.pending, name ∈ missing ∨ w.store.contains name = true)
    (running : Join.Running (fetchScripts (env x.resolver) k x.round missing) events (w.texts k)
      x.fetches)
    (start : (w.errands k).ready.count .start = 0) (wake : (w.errands k).ready.count .wake = 0)
  /-- It waits for the files of its round, and all texts have come. -/
  | resolving {waiters : List (FileId × Nat)} {tally : Tally Fault Dependencies}
    (phase : x.phase = .resolving waiters tally) (silent : x.outcome = none) (clear : w.Clear k)
    (returned : x.fetches.Returned) (hearing : w.Hearing k waiters tally)
    (start : (w.errands k).ready.count .start = 0)
  /-- It is over. It was not refused a file, and texts are under way only if one of them failed. -/
  | finished {ending : Ending WalkFault (List String)} (phase : x.phase = .finished)
    (outcome : x.outcome = some ending) (unrefused : ∀ refusal, ending ≠ .raised (.refused refusal))
    (fetched : x.fetches.Returned ∨ ∃ i failure, x.fetches.Fails i failure)
    (start : (w.errands k).ready.count .start = 0)

/-- Nobody has cancelled walk `k`, which is `x`, and it stands where it should. -/
structure Pursues (env : Nat → Environment) (k : Nat) (w : World) (x : Walk) : Prop where
  walk : w.walks[k]? = some x
  /-- No text is unreadable to its resolver. -/
  reads : ∀ text, ∃ result, (env x.resolver).extract text = .ok result
  unstopped : x.stopping = false
  /-- Only the requests for texts wait at gates. -/
  waiting : (w.errands k).waiting = []
  stage : Staged env k w x

namespace Pursues

variable (h : Pursues env k w x)
include h

/-- Only a walk that is over has an outcome. -/
theorem silent (hphase : x.phase ≠ .finished) : x.outcome = none := by
  cases h.stage with
  | starting _ silent _ _ _ _ => exact silent
  | fetching _ silent _ _ _ _ _ => exact silent
  | resolving _ silent _ _ _ _ => exact silent
  | finished phase _ _ _ _ => exact absurd phase hphase

/-- Outside a round of requests all of them have returned. -/
theorem cleared (hfetching : ∀ missing, x.phase ≠ .fetching missing)
    (hphase : x.phase ≠ .finished) : w.Clear k ∧ x.fetches.Returned := by
  cases h.stage with
  | starting _ _ clear returned _ _ => exact ⟨clear, returned⟩
  | fetching phase _ _ _ _ _ _ => exact absurd phase (hfetching _)
  | resolving _ _ clear returned _ _ => exact ⟨clear, returned⟩
  | finished phase _ _ _ _ => exact absurd phase hphase

/-- It is refused no file. -/
theorem unrefused (refusal : Refusal) : x.outcome ≠ some (.raised (.refused refusal)) := by
  by_cases hphase : x.phase = .finished
  · cases h.stage with
    | starting phase _ _ _ _ _ => cases hphase.symm.trans phase
    | fetching phase _ _ _ _ _ _ => cases hphase.symm.trans phase
    | resolving phase _ _ _ _ _ => cases hphase.symm.trans phase
    | finished _ outcome unrefused _ _ =>
      rw [outcome]
      exact fun heq => unrefused refusal (Option.some.inj heq)
  · rw [h.silent hphase]
    nofun

theorem running {missing : List String} (hphase : x.phase = .fetching missing) :
    ∃ events, Join.Running (fetchScripts (env x.resolver) k x.round missing) events (w.texts k)
      x.fetches := by
  cases h.stage with
  | starting phase _ _ _ _ _ => cases hphase.symm.trans phase
  | fetching phase _ _ _ running _ _ =>
    cases hphase.symm.trans phase
    exact ⟨_, running⟩
  | resolving phase _ _ _ _ _ => cases hphase.symm.trans phase
  | finished phase _ _ _ _ => cases hphase.symm.trans phase

theorem hearing {waiters : List (FileId × Nat)} {tally : Tally Fault Dependencies}
    (hphase : x.phase = .resolving waiters tally) : w.Hearing k waiters tally := by
  cases h.stage with
  | starting phase _ _ _ _ _ => cases hphase.symm.trans phase
  | fetching phase _ _ _ _ _ _ => cases hphase.symm.trans phase
  | resolving phase _ _ _ hearing _ =>
    cases hphase.symm.trans phase
    exact hearing
  | finished phase _ _ _ _ => cases hphase.symm.trans phase

end Pursues

theorem outcomeAt_eq_some {waiters : List (FileId × Nat)} {place : Nat}
    {ending : Ending Fault Dependencies} : w.outcomeAt waiters place = some ending ↔
      ∃ p, waiters[place]? = some p ∧ w.outcome? p.1 p.2 = some ending :=
  Option.bind_eq_some_iff

/-- Whatever the waiters come to elsewhere, the walk is to hear of it. -/
theorem Hearing.elsewhere {waiters : List (FileId × Nat)} {tally : Tally Fault Dependencies}
    (h : w.Hearing k waiters tally) (he : Elsewhere k w w')
    (hlistens : ∀ place p, waiters[place]? = some p →
      w.store.Listens p.1 p.2 (some ⟨k, place⟩)) : w'.Hearing k waiters tally := by
  have hwake : (w'.errands k).ready.count .wake = (w.errands k).ready.count .wake :=
    he.count_errand fun _ => nofun
  have htold : ∀ place, w'.outcomeAt waiters place = w.outcomeAt waiters place ∨
      w.outcomeAt waiters place = none ∧ .resolved place ∈ (w'.errands k).ready := by
    intro place
    unfold outcomeAt
    cases hp : waiters[place]? with
    | none => exact .inl rfl
    | some p =>
      rcases he.told p.1 p.2 place (hlistens place p hp) with hsame | ⟨hnone, hdue⟩
      · exact .inl hsame
      · exact .inr ⟨hnone, List.mem_filterMap.mpr ⟨_, hdue, rfl⟩⟩
  refine ⟨h.sound, h.length, fun place ending hheard => ?_, fun place ending hout => ?_,
    hwake.trans h.wake⟩
  · have hbefore := h.heard place ending hheard
    rcases htold place with hsame | ⟨hnone, -⟩
    · rw [hsame, hbefore]
    · rw [hbefore] at hnone
      cases hnone
  · rcases htold place with hsame | ⟨-, hdue⟩
    · exact (h.due place ending (hsame ▸ hout)).imp_left he.mem_errands
    · exact .inl hdue

/-- **What walk `k` has no part in** leaves it where it stands, as long as no file is lost. -/
theorem Pursues.elsewhere (h : Pursues env k w x) (he : Elsewhere k w w') (hw : w.ProperWalks)
    (hcontains : ∀ name, w.store.contains name = true → w'.store.contains name = true) :
    Pursues env k w' x := by
  have hstart : (w'.errands k).ready.count .start = (w.errands k).ready.count .start :=
    he.count_errand fun _ => nofun
  have hwake : (w'.errands k).ready.count .wake = (w.errands k).ready.count .wake :=
    he.count_errand fun _ => nofun
  refine ⟨he.walk.trans h.walk, h.reads, h.unstopped, he.waiting_errands.trans h.waiting, ?_⟩
  cases h.stage with
  | starting phase silent clear returned start wake =>
    exact .starting phase silent (he.clear clear) returned (hstart.trans start) (hwake.trans wake)
  | fetching phase silent nonempty known running start wake =>
    exact .fetching phase silent nonempty
      (fun name hname => (known name hname).imp_right (hcontains name)) (he.texts ▸ running)
      (hstart.trans start) (hwake.trans wake)
  | resolving phase silent clear returned hearing start =>
    exact .resolving phase silent (he.clear clear) returned
      (hearing.elsewhere he fun place p => (hw k x h.walk).waiters phase) (hstart.trans start)
  | finished phase outcome unrefused fetched start =>
    exact .finished phase outcome unrefused fetched (hstart.trans start)

theorem texts_release (w : World) (k : Nat) (gate : Gate) :
    (w.release gate).texts k = (w.texts k).release gate := by
  simp only [texts, agenda, release, Loop.select_release]

/-- Opening a gate makes nothing due to a walk but that requests for texts go on. -/
theorem errands_release (h : (w.errands k).waiting = []) (gate : Gate) :
    ((w.release gate).errands k).ready = (w.errands k).ready ∧
      ((w.release gate).errands k).waiting = [] := by
  have herrands : (w.release gate).errands k = (w.errands k).release gate := by
    simp only [errands, agenda, release, Loop.select_release]
  rw [herrands]
  simp [Loop.release, h]

/-- **Opening a gate** leaves a walk where it stands. -/
theorem Pursues.release (h : Pursues env k w x) (gate : Gate) :
    Pursues env k (w.release gate) x := by
  obtain ⟨hready, hwaiting⟩ := errands_release h.waiting gate
  have hclear : w.Clear k → (w.release gate).Clear k := by
    rintro ⟨hnone, hnobody⟩
    unfold Clear
    rw [texts_release]
    simp [Loop.release, hnone, hnobody]
  refine ⟨h.walk, h.reads, h.unstopped, hwaiting, ?_⟩
  cases h.stage with
  | starting phase silent clear returned start wake =>
    exact .starting phase silent (hclear clear) returned (hready ▸ start) (hready ▸ wake)
  | fetching phase silent nonempty known running start wake =>
    have hrunning := running.release gate
    rw [← texts_release] at hrunning
    exact .fetching phase silent nonempty known hrunning (hready ▸ start) (hready ▸ wake)
  | resolving phase silent clear returned hearing start =>
    refine .resolving phase silent (hclear clear) returned ?_ (hready ▸ start)
    exact ⟨hearing.sound, hearing.length, hearing.heard, hready ▸ hearing.due, hready ▸ hearing.wake⟩
  | finished phase outcome unrefused fetched start =>
    exact .finished phase outcome unrefused fetched (hready ▸ start)

end World

end DepGraph
