import DepGraph.Proofs.FailingWalk
import DepGraph.Proofs.Frontier

/-!
# A walk goes on

Where jobs are carried out again and again, and whatever waits at a gate is answered some time, a
walk that nobody disturbs does not stay where it is: it begins, its texts come, its files are
resolved, and the next round begins, until it is over.

* `Walk.rank` — how far a walk has come, round by round and phase by phase;
  `World.Passes.rank_le` — it never goes back.
* `World.rank_startRound`, `World.rank_resolveRound`, `World.rank_wakeWalk` — what takes it on.
* `World.Answered` — whatever waits is answered.
* `World.Lingers` — it stays where it is; `World.Lingers.not_fetching`,
  `World.Lingers.not_resolving` — which it cannot while it waits.
* `World.begins_after`, `World.fetches_after`, `World.resolves_after` — it goes on from each phase.
* `World.ends_of_rank_le` — so it ends if it cannot go on forever.
-/

set_option autoImplicit false

namespace DepGraph

/-- How far a walk has come. -/
def Walk.rank (x : Walk) : Nat :=
  3 * x.round + match x.phase with
    | .starting => 0
    | .fetching _ => 1
    | .resolving _ _ => 2
    | .finished => 3

namespace Walk

variable {x y : Walk} {missing : List String} {waiters : List (FileId × Nat)}
  {tally : Tally Fault Dependencies}

theorem rank_starting (h : x.phase = .starting) : x.rank = 3 * x.round := by simp [rank, h]

theorem rank_fetching (h : x.phase = .fetching missing) : x.rank = 3 * x.round + 1 := by
  simp [rank, h]

theorem rank_resolving (h : x.phase = .resolving waiters tally) : x.rank = 3 * x.round + 2 := by
  simp [rank, h]

theorem rank_finished (h : x.phase = .finished) : x.rank = 3 * x.round + 3 := by simp [rank, h]

theorem round_le_rank (x : Walk) : 3 * x.round ≤ x.rank := Nat.le_add_right _ _

theorem rank_le (x : Walk) : x.rank ≤ 3 * x.round + 3 := by
  unfold rank
  split <;> omega

/-- The rank of a walk that waits for texts says so. -/
theorem fetching_of_rank (h : x.phase = .fetching missing) (hxy : y.rank = x.rank) :
    ∃ missing', y.phase = .fetching missing' := by
  rw [rank_fetching h] at hxy
  cases hy : y.phase with
  | fetching missing' => exact ⟨missing', rfl⟩
  | starting =>
    rw [rank_starting hy] at hxy
    omega
  | resolving waiters tally =>
    rw [rank_resolving hy] at hxy
    omega
  | finished =>
    rw [rank_finished hy] at hxy
    omega

end Walk

namespace Loop

variable {J : Type} {loop : Loop J} {gate : Gate}

/-- A gate that makes nothing due lets all wait that waits. -/
theorem release_quiet (h : (loop.release gate).ready = []) :
    ∀ p ∈ loop.waiting, p ∈ (loop.release gate).waiting := by
  intro p hp
  obtain ⟨-, hnone⟩ := List.append_eq_nil_iff.mp h
  have hgate := List.filter_eq_nil_iff.mp (List.map_eq_nil_iff.mp hnone) p hp
  exact List.mem_filter.mpr ⟨hp, by simpa using hgate⟩

end Loop

/-- Part `i` was heard of. -/
def Tally.Heard {φ α : Type} (t : Tally φ α) (i : Nat) : Prop := ∃ e, t.heard[i]? = some (some e)

theorem Tally.Heard.hear {φ α : Type} {t : Tally φ α} {i : Nat} (h : t.Heard i) (j : Nat)
    (e : Ending φ α) : (t.hear j e).Heard i := by
  obtain ⟨e', he'⟩ := h
  unfold Heard
  rw [getElem?_hear]
  split
  · exact ⟨e, by rw [he', Option.map_some]⟩
  · exact ⟨e', he'⟩

/-- **Once all parts were heard of** there is a verdict. -/
theorem Tally.Sound.decided {φ α : Type} {t : Tally φ α} (h : t.Sound) (hsome : t.heard ≠ [])
    (hall : ∀ i, i < t.heard.length → t.Heard i) : ∃ v, t.verdict = some v := by
  cases hv : t.verdict with
  | some v => exact ⟨v, rfl⟩
  | none =>
    obtain ⟨i, hi⟩ := List.mem_iff_getElem?.mp ((h.unheard hv).resolve_left hsome)
    obtain ⟨e, he⟩ := hall i (List.getElem?_eq_some_iff.mp hi).1
    rw [hi] at he
    cases he

namespace World

variable {env : Nat → Environment} {w w' : World} {k : Nat} {x y : Walk} {loop : Loop Job}
  {missing : List String} {waiters : List (FileId × Nat)} {tally : Tally Fault Dependencies}
  {a : Action}

/-! ## Rounds -/

theorem rank_endWalk (hx : w.walks[k]? = some x) (ending : Ending WalkFault (List String)) :
    ∃ y, (w.endWalk k ending).walks[k]? = some y ∧ y.rank = 3 * x.round + 3 :=
  ⟨_, getElem?_modifyWalk_self hx _, Walk.rank_finished rfl⟩

/-- The files of a round are resolved, or the walk is refused one. -/
theorem rank_resolveRound (hx : w.walks[k]? = some x) (env : Environment) :
    ∃ y, (w.resolveRound env k x).walks[k]? = some y ∧ 3 * x.round + 2 ≤ y.rank := by
  have hwalks := walks_resolveAll env x.resolver k 0 w x.pending
  refine resolveRound_cases (P := fun w' => ∃ y, w'.walks[k]? = some y ∧ 3 * x.round + 2 ≤ y.rank)
    (fun w₁ refusal heq => ?_) fun w₁ waiters heq => ?_ <;> rw [heq] at hwalks
  · obtain ⟨y, hy, hrank⟩ := rank_endWalk (hwalks ▸ hx) (.raised (.refused refusal))
    exact ⟨y, hy, by omega⟩
  · exact ⟨_, getElem?_modifyWalk_self (hwalks ▸ hx) _, le_rfl⟩

/-- A round begins, or there is none left. -/
theorem rank_startRound (hx : w.walks[k]? = some x) (env : Environment) :
    ∃ y, (w.startRound env k x).walks[k]? = some y ∧ 3 * x.round + 1 ≤ y.rank := by
  refine startRound_cases (P := fun w' => ∃ y, w'.walks[k]? = some y ∧ 3 * x.round + 1 ≤ y.rank)
    (fun _ => ?_) (fun _ _ => ?_) fun _ _ _ _ => ?_
  · obtain ⟨y, hy, hrank⟩ := rank_endWalk hx (.returned x.visited)
    exact ⟨y, hy, by omega⟩
  · obtain ⟨y, hy, hrank⟩ := rank_resolveRound hx env
    exact ⟨y, hy, by omega⟩
  · exact ⟨_, getElem?_modifyWalk_self (w := { w with loop := _ }) hx _, le_rfl⟩

/-- **A walk that wakes to a verdict goes on.** -/
theorem rank_wakeWalk (hx : w.walks[k]? = some x) (hgoing : x.stopping = false)
    (hdecided : (∃ missing v, x.phase = .fetching missing ∧ x.fetches.tally.verdict = some v) ∨
      ∃ waiters tally v, x.phase = .resolving waiters tally ∧ tally.verdict = some v)
    (env : Environment) : ∃ y, (w.wakeWalk env k x).walks[k]? = some y ∧ x.rank < y.rank := by
  have hends : x.rank < 3 * x.round + 3 → ∀ ending,
      ∃ y, (w.endWalk k ending).walks[k]? = some y ∧ x.rank < y.rank := by
    intro hrank ending
    obtain ⟨y, hy, hover⟩ := rank_endWalk hx ending
    exact ⟨y, hy, hover ▸ hrank⟩
  unfold wakeWalk
  rw [if_neg (by simp [hgoing])]
  rcases hdecided with ⟨missing, v, hphase, hv⟩ | ⟨waiters, tally, v, hphase, hv⟩
  · have hrank := Walk.rank_fetching hphase
    simp only [hphase, hv]
    cases v with
    | returned texts =>
      obtain ⟨y, hy, hresolves⟩ := rank_resolveRound (x := x)
        ((congrArg (·[k]?) (walks_addAll (missing.zip texts) w)).trans hx) env
      exact ⟨y, hy, by omega⟩
    | raised cause => exact hends (by omega) _
    | cancelled => exact hends (by omega) _
  · have hrank := Walk.rank_resolving hphase
    simp only [hphase, hv]
    cases v with
    | returned infos =>
      obtain ⟨y, hy, hstarts⟩ := rank_startRound (getElem?_modifyWalk_self
        (w := w.note (.walked x.pending.length (w.unfetched infos).length)) hx fun _ =>
          { x with
            visited := Dependencies.distinct (x.visited ++ x.pending)
            pending := w.unfetched infos
            round := x.round + 1 }) env
      simp only at hstarts
      exact ⟨y, hy, by omega⟩
    | raised fault => exact hends (by omega) _
    | cancelled => exact hends (by omega) _

/-- **A walk never goes back.** -/
theorem Passes.rank_le (hp : Passes k w w' x y) : x.rank ≤ y.rank := by
  cases hp with
  | stays => exact le_rfl
  | fetches => exact le_rfl
  | begins phase _ opens =>
    rw [Walk.rank_starting phase, ← opens.round]
    exact y.round_le_rank
  | resolves phase _ _ =>
    rw [Walk.rank_fetching phase, Walk.rank_resolving rfl]
    exact Nat.le_succ _
  | hears phase _ => rw [Walk.rank_resolving phase, Walk.rank_resolving rfl]
  | continues phase _ _ _ round opens =>
    have hround := opens.round
    have hrank := y.round_le_rank
    rw [Walk.rank_resolving phase]
    omega
  | fetchFails phase _ _ _ =>
    rw [Walk.rank_fetching phase, Walk.rank_finished rfl]
    exact Nat.le_add_right _ 2
  | fileFails phase _ _ _ =>
    rw [Walk.rank_resolving phase, Walk.rank_finished rfl]
    exact Nat.le_succ _

/-- A walk that is over stays so. -/
theorem Passes.over {ending : Ending WalkFault (List String)} (hp : Passes k w w' x y)
    (hphase : x.phase = .finished) (hout : x.outcome = some ending) :
    y.phase = .finished ∧ y.outcome = some ending := by
  cases hp with
  | stays => exact ⟨hphase, hout⟩
  | fetches => exact ⟨hphase, hout⟩
  | begins phase => cases hphase.symm.trans phase
  | resolves phase => cases hphase.symm.trans phase
  | hears phase => cases hphase.symm.trans phase
  | continues phase => cases hphase.symm.trans phase
  | fetchFails phase => cases hphase.symm.trans phase
  | fileFails phase => cases hphase.symm.trans phase

/-! ## One action -/

/-- A job of the texts that the walk waits for leaves less to do, or takes the walk on. -/
theorem fetching_tick (h : Pursues env k w x) (hphase : x.phase = .fetching missing)
    {job : JoinJob} (hnext : w.loop.next? = some (.walk k (.fetch job), loop)) :
    ∃ y, (w.apply env .tick).walks[k]? = some y ∧ (x.rank < y.rank ∨
      Join.effort ((w.apply env .tick).texts k) y.fetches < Join.effort (w.texts k) x.fetches) := by
  obtain ⟨events, hrunning⟩ := h.running hphase
  obtain ⟨hpop, -⟩ := pop_fetch hnext
  rw [apply_tick_walk h.walk hnext]
  by_cases hjob : job = .wake
  · subst hjob
    have hpos := Loop.load_pos_of_next? hpop
    rw [hrunning.wake] at hpos
    cases hv : x.fetches.tally.verdict with
    | none => simp [hv] at hpos
    | some v =>
      obtain ⟨y, hy, hrank⟩ := rank_wakeWalk (w := { w with loop }) h.walk h.unstopped
        (.inl ⟨missing, v, hphase, hv⟩) (env x.resolver)
      refine ⟨y, ?_, .inl hrank⟩
      simpa only [performWalk, h.walk] using hy
  · have heffort := hrunning.accounts.effort_perform hpop
    obtain ⟨hdone, -⟩ := ({ w with loop } : World).texts_perform k x.fetches job
    rw [Prod.ext_iff, Prod.ext_iff] at hdone
    obtain ⟨-, htexts, hjoin⟩ := hdone
    rw [← htexts, ← hjoin] at heffort
    rw [performWalk_fetch (w := { w with loop }) h.walk hjob]
    exact ⟨_, getElem?_modifyWalk_self (w := { w with loop := _ }) h.walk _, .inr heffort⟩

/-- Whatever happens, a walk that waits for texts has no more left to do; and while nothing of them
is due, all wait that waits. -/
theorem fetching_apply (h : Pursues env k w x) (hphase : x.phase = .fetching missing)
    (hcancel : a ≠ .cancelWalk k) :
    ∃ y, (w.apply env a).walks[k]? = some y ∧ (x.rank < y.rank ∨
      Join.effort ((w.apply env a).texts k) y.fetches ≤ Join.effort (w.texts k) x.fetches ∧
        ((w.texts k).ready = [] → ((w.apply env a).texts k).ready = [] →
          ∀ p ∈ (w.texts k).waiting, p ∈ ((w.apply env a).texts k).waiting)) := by
  have hsame : ∀ {w' : World}, w'.walks[k]? = some x → w'.texts k = w.texts k →
      ∃ y, w'.walks[k]? = some y ∧ (x.rank < y.rank ∨
        Join.effort (w'.texts k) y.fetches ≤ Join.effort (w.texts k) x.fetches ∧
          ((w.texts k).ready = [] → (w'.texts k).ready = [] →
            ∀ p ∈ (w.texts k).waiting, p ∈ (w'.texts k).waiting)) := by
    intro w' hwalk htexts
    rw [htexts]
    exact ⟨x, hwalk, .inr ⟨le_rfl, fun _ _ _ hp => hp⟩⟩
  rcases apply_cases env (List.getElem?_eq_some_iff.mp h.walk).1 hcancel with
    ⟨rfl, job, loop, hnext⟩ | ⟨gate, rfl⟩ | ⟨helsewhere, -⟩
  · cases job with
    | start => cases hphase.symm.trans (h.starting_of_next hnext)
    | wake =>
      have hpos := (count_of_next (pop_errand hnext rfl).1).1
      cases h.stage with
      | fetching _ _ _ _ _ _ wake => omega
      | starting phase _ _ _ _ _ => cases hphase.symm.trans phase
      | resolving phase _ _ _ _ _ => cases hphase.symm.trans phase
      | finished phase _ _ _ _ => cases hphase.symm.trans phase
    | resolved place =>
      have hlate : w.apply env .tick = { w with loop } := by
        rw [apply_tick_walk h.walk hnext]
        simp [performWalk, h.walk, hearWalk, hphase]
      rw [hlate]
      exact hsame h.walk (pop_errand hnext rfl).2
    | fetch job =>
      obtain ⟨y, hy, hrank | hless⟩ := fetching_tick h hphase hnext
      · exact ⟨y, hy, .inl hrank⟩
      · refine ⟨y, hy, .inr ⟨hless.le, fun hnil => ?_⟩⟩
        rw [(Loop.waiting_next? (pop_fetch hnext).1).2.2] at hnil
        cases hnil
  · have htexts : (w.apply env (.release gate)).texts k = (w.texts k).release gate :=
      texts_release w k gate
    refine ⟨x, h.walk, .inr ⟨?_, fun _ hquiet => ?_⟩⟩
    · rw [htexts, Join.effort_congr (Loop.load_release _ _ _) (Loop.load_release _ _ _)]
    · rw [htexts] at hquiet ⊢
      exact Loop.release_quiet hquiet
  · exact hsame (helsewhere.walk.trans h.walk) helsewhere.texts

/-- The walk hears of a file of its round. -/
theorem resolving_tick (h : Pursues env k w x) (hphase : x.phase = .resolving waiters tally)
    {place : Nat} (hnext : w.loop.next? = some (.walk k (.resolved place), loop)) :
    ∃ y tally', (w.apply env .tick).walks[k]? = some y ∧ y.phase = .resolving waiters tally' ∧
      (∀ i, tally.Heard i → tally'.Heard i) ∧
      ∀ ending, w.outcomeAt waiters place = some ending → tally'.Heard place := by
  rw [apply_tick_walk h.walk hnext]
  simp only [performWalk, h.walk, hearWalk, hphase]
  cases hout : w.outcomeAt waiters place with
  | none =>
    have hnone : (waiters[place]?.bind fun p => ({ w with loop } : World).outcome? p.1 p.2) =
        none := hout
    rw [hnone]
    exact ⟨x, tally, h.walk, hphase, fun _ hi => hi, fun _ hsome => by cases hsome⟩
  | some ending =>
    have hsome : (waiters[place]?.bind fun p => ({ w with loop } : World).outcome? p.1 p.2) =
        some ending := hout
    have hwalk := getElem?_modifyWalk_self (w := { w with loop }) h.walk fun x =>
      { x with phase := .resolving waiters (tally.hear place ending) }
    simp only [hsome]
    refine ⟨{ x with phase := .resolving waiters (tally.hear place ending) },
      tally.hear place ending, ?_, rfl, fun i hi => hi.hear place ending, fun _ _ => ?_⟩
    · split <;> exact hwalk
    · obtain ⟨p, hp, -⟩ := outcomeAt_eq_some.mp hout
      have hlt : place < tally.heard.length := by
        rw [(h.hearing hphase).length]
        exact (List.getElem?_eq_some_iff.mp hp).1
      exact ⟨ending, by rw [Tally.getElem?_hear, if_pos rfl, List.getElem?_eq_getElem hlt]; rfl⟩

/-- The walk wakes to the verdict on its files. -/
theorem resolving_wakes (h : Pursues env k w x) (hphase : x.phase = .resolving waiters tally)
    (hnext : w.loop.next? = some (.walk k .wake, loop)) :
    ∃ y, (w.apply env .tick).walks[k]? = some y ∧ x.rank < y.rank := by
  have hpos := (count_of_next (pop_errand hnext rfl).1).1
  rw [(h.hearing hphase).wake] at hpos
  cases hv : tally.verdict with
  | none => simp [hv] at hpos
  | some v =>
    obtain ⟨y, hy, hrank⟩ := rank_wakeWalk (w := { w with loop }) h.walk h.unstopped
      (.inr ⟨waiters, tally, v, hphase, hv⟩) (env x.resolver)
    refine ⟨y, ?_, hrank⟩
    rw [apply_tick_walk h.walk hnext]
    simpa only [performWalk, h.walk] using hy

/-- Whatever happens, a walk that waits for files has heard of what it has heard of. -/
theorem resolving_apply (h : Pursues env k w x) (hphase : x.phase = .resolving waiters tally)
    (hcancel : a ≠ .cancelWalk k) :
    ∃ y, (w.apply env a).walks[k]? = some y ∧ (x.rank < y.rank ∨
      ∃ tally', y.phase = .resolving waiters tally' ∧ ∀ i, tally.Heard i → tally'.Heard i) := by
  rcases apply_cases env (List.getElem?_eq_some_iff.mp h.walk).1 hcancel with
    ⟨rfl, job, loop, hnext⟩ | ⟨gate, rfl⟩ | ⟨helsewhere, -⟩
  · cases job with
    | start => cases hphase.symm.trans (h.starting_of_next hnext)
    | fetch job =>
      have hclear := (h.cleared (by simp [hphase]) (by simp [hphase])).1
      exact absurd (pop_fetch hnext).1 (not_next?_of_clear hclear)
    | wake =>
      obtain ⟨y, hy, hrank⟩ := resolving_wakes h hphase hnext
      exact ⟨y, hy, .inl hrank⟩
    | resolved place =>
      obtain ⟨y, tally', hy, hphase', hheard, -⟩ := resolving_tick h hphase hnext
      exact ⟨y, hy, .inr ⟨tally', hphase', hheard⟩⟩
  · exact ⟨x, h.walk, .inr ⟨tally, hphase, fun _ hi => hi⟩⟩
  · exact ⟨x, helsewhere.walk.trans h.walk, .inr ⟨tally, hphase, fun _ hi => hi⟩⟩

/-! ## Along a schedule -/

/-- Whatever waits at a gate is answered some time. -/
def Answered (env : Nat → Environment) (w : World) (schedule : Nat → Action) : Prop :=
  ∀ n gate job, (gate, job) ∈ (w.after env schedule n).loop.waiting →
    ∃ m, n ≤ m ∧ (gate, job) ∉ (w.after env schedule m).loop.waiting

/-- Some time walk `k` comes further than `x`. -/
def GoesOn (env : Nat → Environment) (k : Nat) (w : World) (schedule : Nat → Action) (x : Walk) :
    Prop :=
  ∃ n y, Pursues env k (w.after env schedule n) y ∧ x.rank < y.rank

variable {schedule : Nat → Action}

/-- The schedule from one of its actions on. -/
theorem after_shift (w : World) (schedule : Nat → Action) (n d : Nat) :
    (w.after env schedule n).after env (fun i => schedule (n + i)) d =
      w.after env schedule (n + d) := by
  rw [after_add, after_eq_run]

theorem Answered.shift (h : Answered env w schedule) (n : Nat) :
    Answered env (w.after env schedule n) fun i => schedule (n + i) := by
  intro d gate job hmem
  rw [after_shift] at hmem
  obtain ⟨m, hm, hnot⟩ := h (n + d) gate job hmem
  refine ⟨m - n, by omega, ?_⟩
  rwa [after_shift, Nat.add_sub_cancel' (by omega)]

theorem waiting_of_texts {gate : Gate} {job : JoinJob} (h : (gate, job) ∈ (w.texts k).waiting) :
    (gate, .walk k (.fetch job)) ∈ w.loop.waiting :=
  (Loop.mem_waiting_select (Job.walk?_unwraps k)).mp
    ((Loop.mem_waiting_select WalkJob.fetch?_unwraps).mp h)

namespace CarriesOn

variable (h : CarriesOn env k w schedule)
include h

theorem cancel (n : Nat) : schedule n ≠ .cancelWalk k := fun hcancel =>
  (h.undisturbed (n + 1)).cancel (List.mem_map.mpr ⟨n, by simp, hcancel⟩)

theorem shift (n : Nat) :
    CarriesOn env k (w.after env schedule n) fun i => schedule (n + i) := by
  refine ⟨fun d => ?_, fun d => ?_⟩
  · obtain ⟨m, hm, htick⟩ := h.ticks (n + d)
    exact ⟨m - n, by omega, by rwa [Nat.add_sub_cancel' (by omega)]⟩
  · have hcalm := h.undisturbed (n + d)
    rw [List.range_add, List.map_append, List.map_map] at hcalm
    rw [after_eq_run]
    exact hcalm.drop

/-- The walk never goes back. -/
theorem pursues (hw : w.Tidy) {n m : Nat} (hnm : n ≤ m)
    (hx : Pursues env k (w.after env schedule n) x) :
    ∃ y, Pursues env k (w.after env schedule m) y ∧ x.rank ≤ y.rank :=
  h.keeps hw (P := fun _ y => x.rank ≤ y.rank) (fun _ _ _ _ hp hle => hle.trans hp.rank_le) hnm hx
    le_rfl

end CarriesOn

/-- A walk that does not go on stays where it is. -/
theorem CarriesOn.rank_eq (h : CarriesOn env k w schedule) (hw : w.Tidy) (hx : Pursues env k w x)
    (hnever : ¬GoesOn env k w schedule x) {n : Nat}
    (hy : Pursues env k (w.after env schedule n) y) : y.rank = x.rank := by
  obtain ⟨z, hz, hle⟩ := h.pursues hw (Nat.zero_le n) hx
  obtain rfl := Option.some.inj (hy.walk.symm.trans hz.walk)
  by_contra hne
  exact hnever ⟨n, y, hy, by omega⟩

/-- A job that is due to the walk is carried out. -/
theorem errand_after (hw : w.Tidy) (hcarries : CarriesOn env k w schedule) {n : Nat}
    {job : WalkJob} (hdue : job ∈ ((w.after env schedule n).errands k).ready) :
    ∃ m loop, n ≤ m ∧ schedule m = .tick ∧
      (w.after env schedule m).loop.next? = some (.walk k job, loop) := by
  obtain ⟨before, rest, hsplit⟩ := List.append_of_mem (due_of_errands hdue)
  obtain ⟨m, hm, htick, loop, hnext⟩ := tick_reaches hw hcarries.ticks hsplit
  exact ⟨m, loop, hm, htick, hnext⟩

/-! ## A walk that stays where it is -/

/-- Walk `k` is followed along a schedule, and does not go on. -/
structure Lingers (env : Nat → Environment) (k : Nat) (w : World) (schedule : Nat → Action)
    (y : Nat → Walk) : Prop where
  pursues : ∀ n, Pursues env k (w.after env schedule n) (y n)
  rank : ∀ n m, (y n).rank = (y m).rank

theorem CarriesOn.lingers (h : CarriesOn env k w schedule) (hw : w.Tidy) (hx : Pursues env k w x)
    (hnever : ¬GoesOn env k w schedule x) : ∃ y, Lingers env k w schedule y ∧ y 0 = x := by
  have hfollows : ∀ n, ∃ y, Pursues env k (w.after env schedule n) y := fun n =>
    (h.pursues hw (Nat.zero_le n) hx).imp fun _ hy => hy.1
  choose y hy using hfollows
  have hrank : ∀ n, (y n).rank = x.rank := fun n => h.rank_eq hw hx hnever (hy n)
  exact ⟨y, ⟨hy, fun n m => (hrank n).trans (hrank m).symm⟩,
    Option.some.inj ((hy 0).walk.symm.trans hx.walk)⟩

/-- What is left to do before the texts of walk `k` have come. -/
def textsLeft (env : Nat → Environment) (k : Nat) (w : World) (schedule : Nat → Action)
    (y : Nat → Walk) (n : Nat) : Nat :=
  Join.effort ((w.after env schedule n).texts k) (y n).fetches

namespace Lingers

variable {ys : Nat → Walk} {heard : Nat → Tally Fault Dependencies} {n m : Nat}
  (h : Lingers env k w schedule ys)
include h

theorem next (hy : ((w.after env schedule n).apply env (schedule n)).walks[k]? = some y) :
    y = ys (n + 1) :=
  Option.some.inj (hy.symm.trans (h.pursues (n + 1)).walk)

theorem not_lt (hy : ((w.after env schedule n).apply env (schedule n)).walks[k]? = some y) :
    ¬(ys n).rank < y.rank := by
  rw [h.next hy, h.rank (n + 1) n]
  exact Nat.lt_irrefl _

/-! ### It waits for texts -/

section Fetching

variable (hcarries : CarriesOn env k w schedule)
  (hfetching : ∀ n, ∃ missing, (ys n).phase = .fetching missing)
include hcarries hfetching

/-- No more is left to do, and while nothing is due, all wait that waits. -/
theorem textsLeft_step (n : Nat) :
    textsLeft env k w schedule ys (n + 1) ≤ textsLeft env k w schedule ys n ∧
      (((w.after env schedule n).texts k).ready = [] →
        ((w.after env schedule (n + 1)).texts k).ready = [] →
        ∀ p ∈ ((w.after env schedule n).texts k).waiting,
          p ∈ ((w.after env schedule (n + 1)).texts k).waiting) := by
  obtain ⟨missing, hphase⟩ := hfetching n
  obtain ⟨y, hy, hmore | hless⟩ := fetching_apply (h.pursues n) hphase (hcarries.cancel n)
  · exact absurd hmore (h.not_lt hy)
  · rw [h.next hy] at hless
    exact hless

theorem antitone_textsLeft : Antitone (textsLeft env k w schedule ys) :=
  antitone_nat_of_succ_le fun n => (h.textsLeft_step hcarries hfetching n).1

/-- What is due is carried out, so that less is left to do. -/
theorem textsLeft_of_due (hw : w.Tidy) (hready : ((w.after env schedule n).texts k).ready ≠ []) :
    ∃ m, textsLeft env k w schedule ys m < textsLeft env k w schedule ys n := by
  obtain ⟨job, hjob⟩ := List.exists_mem_of_ne_nil _ hready
  obtain ⟨before, rest, hsplit⟩ := List.append_of_mem (due_of_texts hjob)
  obtain ⟨m, hm, htick, loop, hpop⟩ := tick_reaches hw hcarries.ticks hsplit
  obtain ⟨missing, hphase⟩ := hfetching m
  obtain ⟨y, hy, hmore | hless⟩ := fetching_tick (h.pursues m) hphase hpop
  · rw [← htick] at hy
    exact absurd hmore (h.not_lt hy)
  · rw [← htick] at hy hless
    rw [h.next hy] at hless
    exact ⟨m + 1, lt_of_lt_of_le hless (h.antitone_textsLeft hcarries hfetching hm)⟩

/-- Whoever waits is answered, so that something comes to be due. -/
theorem comes_due (hanswered : Answered env w schedule) (n : Nat) :
    ∃ m, n ≤ m ∧ ((w.after env schedule m).texts k).ready ≠ [] := by
  by_contra hidle
  push Not at hidle
  obtain ⟨missing, hphase⟩ := hfetching n
  obtain ⟨events, hrunning⟩ := (h.pursues n).running hphase
  obtain ⟨⟨gate, job⟩, hwaits⟩ := hrunning.accounts.waits hrunning.sound hrunning.wake
    (fun hnil => (hrunning.launch hnil).1) (hidle n le_rfl)
  have hforever : ∀ m, n ≤ m → (gate, job) ∈ ((w.after env schedule m).texts k).waiting := by
    intro m hm
    induction m, hm using Nat.le_induction with
    | base => exact hwaits
    | succ m hm ih =>
      exact (h.textsLeft_step hcarries hfetching m).2 (hidle m hm) (hidle (m + 1) (by omega)) _ ih
  obtain ⟨m, hm, hnot⟩ := hanswered n gate _ (waiting_of_texts hwaits)
  exact hnot (waiting_of_texts (hforever m hm))

/-- **A walk does not wait for texts forever**: ever less would be left to do. -/
theorem not_fetching (hw : w.Tidy) (hanswered : Answered env w schedule) : False := by
  obtain ⟨m, hm, hready⟩ := h.comes_due hcarries hfetching hanswered
    (Function.argmin (textsLeft env k w schedule ys))
  obtain ⟨m', hless⟩ := h.textsLeft_of_due hcarries hfetching hw hready
  exact Function.not_lt_argmin _ m'
    (hless.trans_le (h.antitone_textsLeft hcarries hfetching hm))

end Fetching

/-! ### It waits for files -/

/-- It keeps waiting for the same files. -/
theorem resolving (hcarries : CarriesOn env k w schedule)
    (hphase : (ys 0).phase = .resolving waiters tally) :
    ∃ heard : Nat → Tally Fault Dependencies, ∀ n, (ys n).phase = .resolving waiters (heard n) := by
  have hstays : ∀ n, ∃ tally', (ys n).phase = .resolving waiters tally' := by
    intro n
    induction n with
    | zero => exact ⟨tally, hphase⟩
    | succ n ih =>
      obtain ⟨tally', hphase'⟩ := ih
      obtain ⟨y, hy, hmore | ⟨tally'', hphase'', -⟩⟩ :=
        resolving_apply (h.pursues n) hphase' (hcarries.cancel n)
      · exact absurd hmore (h.not_lt hy)
      · exact ⟨tally'', h.next hy ▸ hphase''⟩
  choose heard hresolving using hstays
  exact ⟨heard, hresolving⟩

section Resolving

variable (hcarries : CarriesOn env k w schedule)
  (hresolving : ∀ n, (ys n).phase = .resolving waiters (heard n))
include hcarries hresolving

theorem heard_mono {place : Nat} (hm : n ≤ m) (hn : (heard n).Heard place) :
    (heard m).Heard place := by
  induction m, hm using Nat.le_induction with
  | base => exact hn
  | succ m _ ih =>
    obtain ⟨y, hy, hmore | ⟨tally, hphase, hkeeps⟩⟩ :=
      resolving_apply (h.pursues m) (hresolving m) (hcarries.cancel m)
    · exact absurd hmore (h.not_lt hy)
    · rw [h.next hy, hresolving] at hphase
      cases hphase
      exact hkeeps place ih

/-- It hears of what it was told. -/
theorem hears (hw : w.Tidy) {place m₁ : Nat}
    (htold : ∀ m, m₁ ≤ m → ∃ o, (w.after env schedule m).outcomeAt waiters place = some o) :
    ∃ m, (heard m).Heard place := by
  obtain ⟨o, ho⟩ := htold m₁ le_rfl
  rcases ((h.pursues m₁).hearing (hresolving m₁)).due place o ho with hdue | hheard
  · obtain ⟨m, loop, hm, htick, hpop⟩ := errand_after hw hcarries hdue
    obtain ⟨o', ho'⟩ := htold m hm
    obtain ⟨y, tally, hy, hphase, -, hhears⟩ := resolving_tick (h.pursues m) (hresolving m) hpop
    rw [← htick] at hy
    rw [h.next hy, hresolving] at hphase
    cases hphase
    exact ⟨m + 1, hhears o' ho'⟩
  · exact ⟨m₁, o, hheard⟩

/-- It would wake to a verdict. -/
theorem verdict_eq_none (hw : w.Tidy) (n : Nat) : (heard n).verdict = none := by
  by_contra hverdict
  have hwake : .wake ∈ ((w.after env schedule n).errands k).ready := by
    have hcount := ((h.pursues n).hearing (hresolving n)).wake
    rw [if_pos (Option.isSome_iff_ne_none.mpr hverdict)] at hcount
    exact List.count_pos_iff.mp (by omega)
  obtain ⟨m, loop, -, htick, hpop⟩ := errand_after hw hcarries hwake
  obtain ⟨y, hy, hmore⟩ := resolving_wakes (h.pursues m) (hresolving m) hpop
  rw [← htick] at hy
  exact h.not_lt hy hmore

/-- **A walk does not wait for files forever** if it is told of each of them. -/
theorem not_resolving (hw : w.Tidy) (hsome : waiters ≠ [])
    (htold : ∀ place, place < waiters.length → ∃ m₁, ∀ m, m₁ ≤ m →
      ∃ o, (w.after env schedule m).outcomeAt waiters place = some o) : False := by
  have hone : ∀ place, place < waiters.length → ∃ m, (heard m).Heard place := fun place hlt =>
    (htold place hlt).elim fun _ => h.hears hcarries hresolving hw
  choose! time htime using hone
  -- By then it has heard of all of them.
  let last := (Finset.range waiters.length).sup time
  have hhearing := (h.pursues last).hearing (hresolving last)
  obtain ⟨v, hv⟩ := hhearing.sound.decided
    (fun hnil => hsome (List.length_eq_zero_iff.mp (by rw [← hhearing.length, hnil]; rfl)))
    fun place hlt => by
      rw [hhearing.length] at hlt
      exact h.heard_mono hcarries hresolving (Finset.le_sup (Finset.mem_range.mpr hlt))
        (htime place hlt)
  rw [h.verdict_eq_none hcarries hresolving hw] at hv
  cases hv

end Resolving

end Lingers

/-! ## It goes on -/

/-- **A walk that was requested begins.** -/
theorem begins_after (hw : w.Tidy) (hcarries : CarriesOn env k w schedule) (h : Pursues env k w x)
    (hphase : x.phase = .starting) : GoesOn env k w schedule x := by
  have hdue : .start ∈ (w.errands k).ready := by
    cases h.stage with
    | starting _ _ _ _ start _ => exact List.count_pos_iff.mp (by omega)
    | fetching phase _ _ _ _ _ _ => cases hphase.symm.trans phase
    | resolving phase _ _ _ _ _ => cases hphase.symm.trans phase
    | finished phase _ _ _ _ => cases hphase.symm.trans phase
  obtain ⟨m, loop, hm, htick, hnext⟩ := errand_after hw hcarries (n := 0) hdue
  obtain ⟨y, hy, hle⟩ := hcarries.pursues hw hm h
  obtain ⟨z, hz, -⟩ := hcarries.pursues hw (Nat.le_succ m) hy
  have hstarts := rank_startRound (w := { w.after env schedule m with loop }) hy.walk
    (env y.resolver)
  have hstep : (w.after env schedule (m + 1)) =
      ({ w.after env schedule m with loop } : World).startRound (env y.resolver) k y := by
    rw [after, htick, apply_tick_walk hy.walk hnext]
    simp [performWalk, hy.walk, hy.unstopped]
  rw [← hstep] at hstarts
  obtain ⟨z', hz', hrank⟩ := hstarts
  obtain rfl := Option.some.inj (hz.walk.symm.trans hz')
  rw [Walk.rank_starting (hy.starting_of_next hnext)] at hle
  exact ⟨m + 1, z, hz, by omega⟩

/-- **The texts that a walk waits for come**, or one of them fails. -/
theorem fetches_after (hw : w.Tidy) (hcarries : CarriesOn env k w schedule)
    (hanswered : Answered env w schedule) (h : Pursues env k w x)
    (hphase : x.phase = .fetching missing) : GoesOn env k w schedule x := by
  by_contra hnever
  obtain ⟨ys, hlingers, rfl⟩ := hcarries.lingers hw h hnever
  exact hlingers.not_fetching hcarries
    (fun n => Walk.fetching_of_rank hphase (hlingers.rank n 0)) hw hanswered

/-- Whoever waits for a file in a run is told some time, for good. -/
theorem told_some {options : Options} {libName : String} {registries : Nat → Registry}
    {actions : List Action} (hrun : w = (initial options libName registries).run env actions)
    (hticks : ∀ n, ∃ m, n ≤ m ∧ schedule m = .tick) (hanswered : Answered env w schedule)
    {id : FileId} {n : Nat} {listener : Option WalkRef}
    (hlistens : w.store.Listens id n listener) :
    ∃ m₁, ∀ m, m₁ ≤ m → ∃ o, (w.after env schedule m).outcome? id n = some o := by
  have hw : w.Tidy := hrun ▸ tidy_run env (tidy_initial options libName registries) actions
  have hfair : Fair env w schedule id :=
    ⟨hticks, fun n gate job hmem => hanswered n gate _ hmem⟩
  obtain ⟨r, v, hr, hs, -⟩ := request_started
    (fun l hl => lawful_run options libName registries actions (hrun ▸ hl)) hlistens
  obtain ⟨ending, ⟨n₀, hends⟩, -⟩ := hears_run options libName registries actions
    (hrun ▸ hr) hs (hrun ▸ hfair)
  rw [← hrun] at hends
  have hlater : w.after env schedule n₀ = (initial options libName registries).run env
      (actions ++ (List.range n₀).map schedule) := by rw [after_eq_run, hrun, run_append]
  have hthere : (w.after env schedule n₀).store.Listens id n listener := by
    rw [after_eq_run]
    exact (grows_run env hw _).listens hlistens
  have hticks' : ∀ d, ∃ m, d ≤ m ∧ schedule (n₀ + m) = .tick := fun d => by
    obtain ⟨m, hm, htick⟩ := hticks (n₀ + d)
    refine ⟨m - n₀, by omega, ?_⟩
    rwa [Nat.add_sub_cancel' (by omega)]
  obtain ⟨m₁, htold⟩ := told_after hlater hticks' (hends n₀ le_rfl) hthere
  refine ⟨n₀ + m₁, fun m hm => ?_⟩
  obtain ⟨o, hout⟩ := htold (m - n₀) (by omega)
  rw [after_shift, Nat.add_sub_cancel' (by omega)] at hout
  exact ⟨o, hout⟩

/-- **The files that a walk waits for are resolved**, or one of them fails. -/
theorem resolves_after {options : Options} {libName : String} {registries : Nat → Registry}
    {actions : List Action} (hrun : w = (initial options libName registries).run env actions)
    (hcarries : CarriesOn env k w schedule) (hanswered : Answered env w schedule)
    (h : Pursues env k w x) (hphase : x.phase = .resolving waiters tally) (hsome : waiters ≠ []) :
    GoesOn env k w schedule x := by
  have hw : w.Tidy := hrun ▸ tidy_run env (tidy_initial options libName registries) actions
  by_contra hnever
  have htold : ∀ place, place < waiters.length → ∃ m₁, ∀ m, m₁ ≤ m →
      ∃ o, (w.after env schedule m).outcomeAt waiters place = some o := by
    intro place hlt
    have hplace : waiters[place]? = some waiters[place] := List.getElem?_eq_getElem hlt
    obtain ⟨m₁, htold⟩ := told_some hrun hcarries.ticks hanswered
      ((hw.walks k x h.walk).waiters hphase hplace)
    exact ⟨m₁, fun m hm => (htold m hm).imp fun _ ho => outcomeAt_eq_some.mpr ⟨_, hplace, ho⟩⟩
  obtain ⟨ys, hlingers, rfl⟩ := hcarries.lingers hw h hnever
  obtain ⟨heard, hresolving⟩ := hlingers.resolving hcarries hphase
  exact hlingers.not_resolving hcarries hresolving hw hsome htold

/-! ## It ends -/

/-- **A walk that cannot go on forever ends**, for good. -/
theorem ends_of_rank_le {options : Options} {libName : String} {registries : Nat → Registry}
    {actions : List Action} (hrun : w = (initial options libName registries).run env actions)
    (hcarries : CarriesOn env k w schedule) (hanswered : Answered env w schedule)
    (hwaiters : ∀ n y waiters tally, Pursues env k (w.after env schedule n) y →
      y.phase = .resolving waiters tally → waiters ≠ []) (bound : Nat)
    (hbound : ∀ n y, Pursues env k (w.after env schedule n) y → y.rank ≤ bound) {n : Nat}
    (h : Pursues env k (w.after env schedule n) x) :
    ∃ m ending, ∀ m', m ≤ m' → (w.after env schedule m').Ends k ending := by
  have hw : w.Tidy := hrun ▸ tidy_run env (tidy_initial options libName registries) actions
  generalize hleft : bound - x.rank = left
  induction left using Nat.strong_induction_on generalizing n x with
  | _ left ih =>
    have hshift : ∀ m, (w.after env schedule n).after env (fun i => schedule (n + i)) m =
        w.after env schedule (n + m) := after_shift w schedule n
    have hmore : GoesOn env k (w.after env schedule n) (fun i => schedule (n + i)) x →
        ∃ m ending, ∀ m', m ≤ m' → (w.after env schedule m').Ends k ending := by
      rintro ⟨m, y, hy, hlt⟩
      rw [hshift] at hy
      have hle := hbound _ _ hy
      exact ih (bound - y.rank) (by omega) hy rfl
    have hcarries' := hcarries.shift n
    have hanswered' := hanswered.shift n
    have hrun' : w.after env schedule n = (initial options libName registries).run env
        (actions ++ (List.range n).map schedule) := by rw [after_eq_run, hrun, run_append]
    cases h.stage with
    | starting phase => exact hmore (begins_after (tidy_after hw n) hcarries' h phase)
    | fetching phase => exact hmore (fetches_after (tidy_after hw n) hcarries' hanswered' h phase)
    | resolving phase =>
      exact hmore (resolves_after hrun' hcarries' hanswered' h phase (hwaiters n x _ _ h phase))
    | @finished ending phase outcome =>
      refine ⟨n, ending, fun m hm => ?_⟩
      obtain ⟨y, hy, -, hout⟩ := hcarries.keeps hw
        (P := fun _ y => y.phase = .finished ∧ y.outcome = some ending)
        (fun _ _ _ _ hp hover => hp.over hover.1 hover.2) hm h ⟨phase, outcome⟩
      exact ⟨y, hy.walk, hout⟩

end World

end DepGraph
