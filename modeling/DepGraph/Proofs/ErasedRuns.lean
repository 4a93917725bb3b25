import DepGraph.Proofs.Erasure

/-!
# Runs without some of the waiters of a file

* `World.without_resolveAll`, `World.without_performWalk`, `World.without_cancelWalk` — walks do
  the same without those to whom nobody listens.
* `Action.without` — an action, once those are gone: `World.without_apply` and
  `World.without_apply_none` say what it does.
-/

set_option autoImplicit false

namespace DepGraph

open DepGraph.Numbering

variable {id other : FileId} {gone : List Nat}

namespace World

variable {w : World} {env : Environment} {k : Nat} {x : Walk}

/-! ## Rounds -/

theorem without_endWalk (w : World) (k : Nat) (ending : Ending WalkFault (List String)) :
    (w.endWalk k ending).without id gone = (w.without id gone).endWalk k ending :=
  without_modifyWalk fun _ _ => rfl

/-- **The requests of a round** are answered as before, under new numbers. -/
theorem without_resolveAll {resolver place : Nat} {names : List String}
    (h : Unheard id gone (resolveAll env resolver k place w names).1.store) :
    resolveAll env resolver k place (w.without id gone) names =
      ((resolveAll env resolver k place w names).1.without id gone,
        (resolveAll env resolver k place w names).2.map fun waiters =>
          waiters.map fun p => (p.1, id.number gone p.1 p.2)) := by
  induction names generalizing w place with
  | nil => rfl
  | cons name rest ih =>
    have hresolve : ∀ {w₁ result}, w.resolve env resolver name (some ⟨k, place⟩) = (w₁, result) →
        Unheard id gone w₁.store →
        (w.without id gone).resolve env resolver name (some ⟨k, place⟩) =
          (w₁.without id gone, result.map fun p => (p.1, id.number gone p.1 p.2)) := by
      intro w₁ result heq hheard
      rw [without_resolve, heq]
      intro p hp
      rw [heq] at hp
      exact hheard.stays (listens_resolve (heq.trans (congrArg (Prod.mk w₁) hp)))
    unfold resolveAll at h ⊢
    cases heq : w.resolve env resolver name (some ⟨k, place⟩) with
    | mk w₁ result =>
      cases result with
      | error refusal =>
        rw [heq] at h
        rw [hresolve heq h]
        rfl
      | ok waiter =>
        simp only [heq] at h
        cases heq' : resolveAll env resolver k (place + 1) w₁ rest with
        | mk w₂ results =>
          rw [heq'] at h
          have hgrows := grows_resolveAll env resolver k (place + 1) w₁ rest
          rw [heq'] at hgrows
          have hheard : Unheard id gone w₂.store := by
            cases results <;> exact h
          have hheard' :
              Unheard id gone (resolveAll env resolver k (place + 1) w₁ rest).1.store := by
            rw [heq']
            exact hheard
          have hrest := ih hheard'
          rw [heq'] at hrest
          rw [hresolve heq (hheard.of_grows hgrows)]
          simp only [Except.map, hrest, heq']
          cases results <;> rfl

theorem settledPlaces_without {waiters : List (FileId × Nat)}
    (h : ∀ p ∈ waiters, p.1 = id → p.2 ∉ gone) :
    (w.without id gone).settledPlaces (waiters.map fun p => (p.1, id.number gone p.1 p.2)) =
      w.settledPlaces waiters := by
  unfold settledPlaces
  rw [List.length_map]
  refine List.filter_congr fun i _ => ?_
  rw [List.getElem?_map]
  cases hi : waiters[i]? with
  | none => rfl
  | some p =>
    simp only [Option.map_some]
    rw [outcome?_without w (h p (List.mem_of_getElem? hi))]

theorem without_resolveRound (h : Unheard id gone (w.resolveRound env k x).store) :
    (w.resolveRound env k x).without id gone =
      (w.without id gone).resolveRound env k (x.without id gone) := by
  unfold resolveRound at h ⊢
  rw [Walk.resolver_without, Walk.pending_without]
  cases heq : resolveAll env x.resolver k 0 w x.pending with
  | mk w₁ results =>
    rw [heq] at h
    have hheard : Unheard id gone (resolveAll env x.resolver k 0 w x.pending).1.store := by
      rw [heq]
      cases results <;> exact h
    rw [without_resolveAll hheard, heq]
    rw [heq] at hheard
    cases results with
    | error refusal => exact without_endWalk _ _ _
    | ok waiters =>
      have hstays : ∀ p ∈ waiters, p.1 = id → p.2 ∉ gone := by
        intro p hp
        obtain ⟨place, hplace⟩ := List.mem_iff_getElem?.mp hp
        exact hheard.stays (resolveAll_listens heq hplace)
      have hjobs : ∀ places : List Nat, (places.map fun i => Job.walk k (.resolved i)) =
          (places.map WalkJob.resolved).map (.walk k) := by
        intro places
        rw [List.map_map]
        rfl
      simp only [Except.map, settledPlaces_without hstays, List.length_map, hjobs]
      rw [without_postAll_walk, without_modifyWalk]
      exact fun _ _ => rfl

/-- A job of the texts that a walk fetches does the same. -/
theorem perform_fetch_without (w : World) (k : Nat) (join : Join Event Cause String)
    (job : JoinJob) :
    join.perform (fun j => Job.walk k (.fetch j)) (w.without id gone).loop job =
      ((join.perform (fun j => Job.walk k (.fetch j)) w.loop job).1,
        (join.perform (fun j => Job.walk k (.fetch j)) w.loop job).2.1.select (Job.without id gone),
        (join.perform (fun j => Job.walk k (.fetch j)) w.loop job).2.2) :=
  (Join.perform_select ((Job.carries_walk id gone k).comp WalkJob.fetch) w.loop join job).symm

theorem without_startRound (h : Unheard id gone (w.startRound env k x).store) :
    (w.startRound env k x).without id gone =
      (w.without id gone).startRound env k (x.without id gone) := by
  unfold startRound at h ⊢
  simp only [Walk.pending_without, Walk.round_without, contains_without] at h ⊢
  split
  · exact without_endWalk _ _ _
  · rename_i hpending
    rw [if_neg hpending] at h
    split
    · rename_i hnone
      rw [if_pos hnone] at h
      exact without_resolveRound h
    · rw [perform_fetch_without, without_modifyWalk]
      · rfl
      · exact fun _ _ => rfl

theorem without_addRound {missing texts : List String}
    (h : Unheard id gone (w.addRound env k x missing texts).store) :
    (w.addRound env k x missing texts).without id gone =
      (w.without id gone).addRound env k (x.without id gone) missing texts := by
  unfold addRound at h ⊢
  generalize missing.zip texts = files at h ⊢
  induction files generalizing w with
  | nil => exact without_resolveRound h
  | cons file rest ih =>
    simp only [List.foldl_cons] at h ⊢
    rw [← without_add]
    exact ih h

theorem without_finishRound {infos : List Dependencies}
    (h : Unheard id gone (w.finishRound env k x infos).store) :
    (w.finishRound env k x infos).without id gone =
      (w.without id gone).finishRound env k (x.without id gone) infos := by
  unfold finishRound unfetched at h ⊢
  simp only [Walk.pending_without, contains_without]
  rw [without_startRound h, without_modifyWalk, without_note]
  · rfl
  · exact fun _ _ => rfl

/-- **A walk wakes** as before. -/
theorem without_wakeWalk (h : Unheard id gone (w.wakeWalk env k x).store) :
    (w.wakeWalk env k x).without id gone =
      (w.without id gone).wakeWalk env k (x.without id gone) := by
  unfold wakeWalk at h ⊢
  rw [Walk.stopping_without]
  by_cases hstopping : x.stopping
  · rw [if_pos hstopping, if_pos hstopping]
    exact without_endWalk _ _ _
  · rw [if_neg hstopping] at h ⊢
    rw [if_neg hstopping]
    rw [Walk.phase_without, Walk.fetches_without]
    cases hp : x.phase with
    | starting => rfl
    | fetching missing =>
      simp only [hp, Phase.without] at h ⊢
      cases hv : x.fetches.tally.verdict with
      | none => rfl
      | some verdict =>
        simp only [hv] at h ⊢
        cases verdict with
        | returned texts => exact without_addRound h
        | raised cause => exact without_endWalk _ _ _
        | cancelled => exact without_endWalk _ _ _
    | resolving waiters tally =>
      simp only [hp, Phase.without] at h ⊢
      cases hv : tally.verdict with
      | none => rfl
      | some verdict =>
        simp only [hv] at h ⊢
        cases verdict with
        | returned infos => exact without_finishRound h
        | raised fault => exact without_endWalk _ _ _
        | cancelled => exact without_endWalk _ _ _
    | finished => rfl

/-! ## Hearing -/

/-- Those to whom a walk listens stay. -/
theorem stays_of_walk (hw : w.ProperWalks) (hheard : Unheard id gone w.store)
    (hx : w.walks[k]? = some x) {waiters : List (FileId × Nat)} {tally : Tally Fault Dependencies}
    (hp : x.phase = .resolving waiters tally) : ∀ p ∈ waiters, p.1 = id → p.2 ∉ gone := by
  intro p hmem
  obtain ⟨place, hplace⟩ := List.mem_iff_getElem?.mp hmem
  exact hheard.stays ((hw k x hx).waiters hp hplace)

/-- **A walk hears** as before. -/
theorem without_hearWalk (hw : w.ProperWalks) (hheard : Unheard id gone w.store)
    (hx : w.walks[k]? = some x) (place : Nat) :
    (w.hearWalk k x place).without id gone =
      (w.without id gone).hearWalk k (x.without id gone) place := by
  unfold hearWalk
  rw [Walk.phase_without]
  cases hp : x.phase with
  | starting => rfl
  | fetching missing => rfl
  | resolving waiters tally =>
    have houtcome : ((waiters.map fun p => (p.1, id.number gone p.1 p.2))[place]?.bind fun p =>
        (w.without id gone).outcome? p.1 p.2) =
          waiters[place]?.bind fun p => w.outcome? p.1 p.2 := by
      rw [List.getElem?_map]
      cases hi : waiters[place]? with
      | none => rfl
      | some p =>
        exact outcome?_without w (stays_of_walk hw hheard hx hp p (List.mem_of_getElem? hi))
    simp only [Phase.without, houtcome]
    cases waiters[place]?.bind fun p => w.outcome? p.1 p.2 with
    | none => rfl
    | some ending =>
      simp only
      split
      · rw [without_post_walk, without_modifyWalk]
        exact fun _ _ => rfl
      · rw [without_modifyWalk]
        exact fun _ _ => rfl
  | finished => rfl

/-- **A job of a walk** is carried out as before, unless somebody who is gone were to be heard. -/
theorem without_performWalk {job : WalkJob} (hw : w.ProperWalks)
    (h : Unheard id gone (w.performWalk env k job).store) (hheard : Unheard id gone w.store) :
    (w.performWalk env k job).without id gone = (w.without id gone).performWalk env k job := by
  unfold performWalk at h ⊢
  rw [getElem?_walks_without]
  cases hx : w.walks[k]? with
  | none => rfl
  | some x =>
    simp only [hx, Option.map_some] at h ⊢
    cases job with
    | start =>
      have hstopping : (x.without id gone).stopping = x.stopping := rfl
      cases hs : x.stopping with
      | true =>
        rw [hs] at hstopping
        rw [if_pos rfl, if_pos hstopping]
        exact without_endWalk _ _ _
      | false =>
        rw [hs] at hstopping
        simp only [hs, hstopping, Bool.false_eq_true, if_false] at h ⊢
        exact without_startRound h
    | fetch job =>
      cases job with
      | wake => exact without_wakeWalk h
      | _ =>
        simp only [Walk.fetches_without, perform_fetch_without]
        rw [without_record, without_modifyWalk]
        · rfl
        · exact fun _ _ => rfl
    | resolved place => exact without_hearWalk hw hheard hx place
    | wake => exact without_wakeWalk h

/-! ## Cancelling -/

theorem without_cancelFetches (w : World) (k : Nat) (x : Walk) :
    (w.without id gone).cancelFetches k (x.without id gone) =
      ((w.cancelFetches k x).1.without id gone, (w.cancelFetches k x).2) := by
  have habandon := Join.abandon_select ((Job.carries_walk id gone k).comp WalkJob.fetch) w.loop
    x.fetches
  unfold cancelFetches
  rw [Walk.fetches_without]
  split
  · rfl
  · simp only [loop_without, ← habandon, Prod.map_fst, Prod.map_snd, Prod.mk.injEq, and_true]
    rw [without_modifyWalk]
    · rfl
    · exact fun _ _ => rfl

theorem without_cancelWaiters {waiters : List (FileId × Nat)}
    (h : ∀ p ∈ waiters, p.1 = id → p.2 ∉ gone) (tally : Tally Fault Dependencies) :
    (w.without id gone).cancelWaiters (waiters.map fun p => (p.1, id.number gone p.1 p.2)) tally =
      ((w.cancelWaiters waiters tally).1.without id gone, (w.cancelWaiters waiters tally).2) := by
  have hopen : (waiters.map fun p => (p.1, id.number gone p.1 p.2)).filter
      (fun p => ((w.without id gone).outcome? p.1 p.2).isNone) =
        (waiters.filter fun p => (w.outcome? p.1 p.2).isNone).map
          fun p => (p.1, id.number gone p.1 p.2) := by
    rw [List.filter_map]
    refine congrArg _ (List.filter_congr fun p hp => ?_)
    rw [Function.comp_apply, outcome?_without w (h p hp)]
  have hgive : ∀ (given : List (FileId × Nat)) (w : World),
      (∀ p ∈ given, p.1 = id → p.2 ∉ gone) →
        (given.map fun p => (p.1, id.number gone p.1 p.2)).foldl
            (fun w p => w.giveUp p.1 p.2) (w.without id gone) =
          (given.foldl (fun w p => w.giveUp p.1 p.2) w).without id gone := by
    intro given
    induction given with
    | nil => exact fun _ _ => rfl
    | cons p rest ih =>
      intro w hgiven
      simp only [List.map_cons, List.foldl_cons]
      rw [← without_giveUp w (hgiven p List.mem_cons_self)]
      exact ih _ fun q hq => hgiven q (List.mem_cons_of_mem _ hq)
  unfold cancelWaiters
  simp only [hopen, List.isEmpty_map]
  split
  · rfl
  · rw [hgive _ w fun p hp => h p (List.mem_filter.mp hp).1]

/-- **A walk is cancelled** as before. -/
theorem without_cancelWalk (hw : w.ProperWalks) (hheard : Unheard id gone w.store) (k : Nat) :
    (w.cancelWalk k).without id gone = (w.without id gone).cancelWalk k := by
  have hstop : ∀ w : World, (w.modifyWalk k fun x => { x with stopping := true }).without id gone =
      (w.without id gone).modifyWalk k fun x => { x with stopping := true } :=
    fun _ => without_modifyWalk fun _ _ => rfl
  have hstops : ∀ (w : World) (taken : Bool),
      (if taken then w else w.modifyWalk k fun x => { x with stopping := true }).without id gone =
        if taken then w.without id gone
        else (w.without id gone).modifyWalk k fun x => { x with stopping := true } := by
    intro w taken
    cases taken
    · exact hstop w
    · rfl
  unfold cancelWalk
  rw [getElem?_walks_without]
  cases hx : w.walks[k]? with
  | none => rfl
  | some x =>
    have hphase : (x.without id gone).phase = x.phase.without id gone := rfl
    simp only [Option.map_some]
    cases hp : x.phase with
    | starting =>
      simp only [hphase, hp, Phase.without]
      exact hstop w
    | fetching missing =>
      simp only [hphase, hp, Phase.without, without_cancelFetches, hstops]
    | resolving waiters tally =>
      simp only [hphase, hp, Phase.without, hstops,
        without_cancelWaiters (stays_of_walk hw hheard hx hp)]
    | finished => simp only [hphase, hp, Phase.without, if_true]

theorem without_walk (w : World) (resolver : Nat) (entries : List String) :
    (w.walk resolver entries).1.without id gone =
      ((w.without id gone).walk resolver entries).1 := by
  unfold walk
  simp only
  rw [without_post_walk]
  simp [without, Walk.without, Phase.without]

end World

/-! ## Actions -/

/-- An action, once some waiters of file `id` are gone: nothing is left of one that concerns only
them. -/
def Action.without (id : FileId) (gone : List Nat) (w : World) : Action → Option Action
  | .tick =>
    match w.loop.next? with
    | some (job, _) => (job.without id gone).map fun _ => .tick
    | none => some .tick
  | .giveUp other k =>
    if other = id ∧ k ∈ gone then none else some (.giveUp other (id.number gone other k))
  | a => some a

namespace World

variable {w : World} {env : Nat → Environment} {a a' : Action}

theorem without_perform (hw : w.ProperWalks) {job job' : Job}
    (h : Unheard id gone (w.perform env job).store) (hheard : Unheard id gone w.store)
    (hjob : job.without id gone = some job') :
    (w.perform env job).without id gone = (w.without id gone).perform env job' := by
  cases job with
  | file other job =>
    obtain ⟨job', rfl⟩ : ∃ job'', job' = .file other job'' := by
      cases job with
      | join job => exact ⟨_, (Option.some.inj hjob).symm⟩
      | tell k =>
        simp only [Job.without] at hjob
        split at hjob
        · cases hjob
        · exact ⟨_, (Option.some.inj hjob).symm⟩
    exact without_performFile w hjob
  | walk k job =>
    obtain rfl := Option.some.inj hjob
    have hresolver : (w.without id gone).walks[k]?.map Walk.resolver =
        w.walks[k]?.map Walk.resolver := by
      rw [getElem?_walks_without, Option.map_map]
      rfl
    simp only [perform, hresolver] at h ⊢
    exact without_performWalk hw h hheard

/-- **An action that stays** does the same without those to whom nobody listens, unless it is a
request that brings one of them. -/
theorem without_apply (hw : w.Tidy) (h : Unheard id gone (w.apply env a).store)
    (hloop : ∀ resolver name, a = .resolveWithoutLoop resolver name →
      ∀ p, (w.resolveWithoutLoop (env resolver) name none).2 = .ok p → p.1 = id → p.2 ∉ gone)
    (hnew : ∀ resolver name, a = .resolve resolver name →
      ∀ p, (w.resolve (env resolver) resolver name none).2 = .ok p → p.1 = id → p.2 ∉ gone)
    (ha : a.without id gone w = some a') :
    (w.without id gone).apply env a' = (w.apply env a).without id gone := by
  have hheard := h.of_grows (grows_apply env hw a)
  cases a with
  | tick =>
    change (w.without id gone).apply env a' = (w.tick env).without id gone
    change Unheard id gone (w.tick env).store at h
    unfold tick at h ⊢
    simp only [Action.without] at ha
    cases hnext : w.loop.next? with
    | none =>
      simp only [hnext, Option.some.injEq] at ha
      have hready : w.loop.ready = [] := by
        cases hready : w.loop.ready with
        | nil => rfl
        | cons job rest => simp [Loop.next?, hready] at hnext
      subst ha
      simp [apply, tick, Loop.next?, Loop.select, hready]
    | some p =>
      obtain ⟨job, loop⟩ := p
      simp only [hnext, Option.map_eq_some_iff] at ha h ⊢
      obtain ⟨job', hjob, rfl⟩ := ha
      have hnext' : (w.without id gone).loop.next? =
          some (job', loop.select (Job.without id gone)) :=
        next?_select hnext hjob
      have hperform := without_perform (w := { w with loop }) hw.walks h hheard hjob
      rw [hperform]
      simp only [apply, tick, hnext']
      rfl
  | giveUp other k =>
    simp only [Action.without] at ha
    split at ha
    · cases ha
    · rename_i hk
      cases ha
      exact (without_giveUp w fun hid hmem => hk ⟨hid, hmem⟩).symm
  | add name text =>
    cases ha
    exact (without_add w name text).symm
  | setText name text =>
    cases ha
    exact (without_setText w name text).symm
  | register resolver address =>
    cases ha
    exact (without_register w resolver address).symm
  | resolve resolver name =>
    cases ha
    exact congrArg Prod.fst (without_resolve (hnew resolver name rfl))
  | resolveWithoutLoop resolver name =>
    cases ha
    exact congrArg Prod.fst (without_resolveWithoutLoop (hloop resolver name rfl))
  | walk resolver entries =>
    cases ha
    exact (without_walk w resolver entries).symm
  | cancelWalk k =>
    cases ha
    exact (without_cancelWalk hw.walks hheard k).symm
  | release gate =>
    cases ha
    exact (without_release w gate).symm

/-- **An action that concerns only those who are gone** changes nothing else. -/
theorem without_apply_none (hheard : Unheard id gone w.store) (ha : a.without id gone w = none) :
    (w.apply env a).without id gone = w.without id gone := by
  cases a with
  | tick =>
    simp only [Action.without] at ha
    cases hnext : w.loop.next? with
    | none => simp [hnext] at ha
    | some p =>
      obtain ⟨job, loop⟩ := p
      simp only [hnext, Option.map_eq_none_iff] at ha
      obtain ⟨k, hk, rfl⟩ := Job.without_eq_none ha
      have hheard' : Unheard id gone ({ w with loop } : World).store := hheard
      simp only [apply, tick, hnext, perform]
      rw [without_performFile_tell hheard' hk]
      simp [without, select_next? hnext ha]
  | giveUp other k =>
    simp only [Action.without] at ha
    split at ha
    · rename_i hgone
      obtain ⟨rfl, hk⟩ := hgone
      exact without_giveUp_of_mem hheard hk
    · cases ha
  | _ => cases ha

end World

end DepGraph
