import DepGraph.Proofs.Accounts

/-!
# The first failure

Ends are heard of in the order in which they come about, so that the failure a join ends with is
that of the member that failed first in time, whatever fails before the join wakes.

* `Join.failing` — the failure that the join is bound to end with, as soon as a member has failed.
* `Join.Accounts.failing_perform` — once there is one it stays.
* `Join.Accounts.failing_none` — as long as there is none no member has failed.
-/

set_option autoImplicit false

namespace DepGraph.Join

variable {ε φ α : Type} {loop loop' : Loop JoinJob} {join : Join ε φ α} {job : JoinJob}
  {failure : Ending φ Empty}

/-- The failure that a job brings to be heard of, if it does. -/
def tidings (members : List (Member ε φ α)) : JoinJob → Option (Ending φ Empty)
  | .hear i => (members[i]?.bind Member.ending?).bind Ending.failure?
  | _ => none

/-- The failure that a join is bound to end with: that of its verdict, or else the first that it is
to hear of. -/
def failing (loop : Loop JoinJob) (join : Join ε φ α) : Option (Ending φ Empty) :=
  match join.tally.verdict with
  | some v => v.failure?
  | none => loop.ready.findSome? (tidings join.members)

theorem failing_of_verdict {v : Ending φ (List α)} (h : join.tally.verdict = some v)
    (loop : Loop JoinJob) : failing loop join = v.failure? := by
  simp [failing, h]

theorem failing_of_none (h : join.tally.verdict = none) (loop : Loop JoinJob) :
    failing loop join = loop.ready.findSome? (tidings join.members) := by
  simp [failing, h]

/-- A join without members does not fail. -/
theorem failing_nil (hv : join.tally.verdict = none) (hnil : join.members = [])
    (loop : Loop JoinJob) : failing loop join = none := by
  rw [failing_of_none hv, hnil]
  refine List.findSome?_eq_none_iff.mpr fun job _ => ?_
  cases job <;> rfl

theorem tidings_eq_some {members : List (Member ε φ α)} :
    tidings members job = some failure ↔
      ∃ i e, job = .hear i ∧ members[i]? = some (.ended e) ∧ e.failure? = some failure := by
  cases job with
  | hear i =>
    simp only [tidings, Option.bind_eq_some_iff, JoinJob.hear.injEq]
    constructor
    · rintro ⟨e, ⟨m, hm, hme⟩, he⟩
      cases m with
      | ended e' => exact ⟨i, e', rfl, hm, by cases hme; exact he⟩
      | active farewell rest => cases hme
      | stopped farewell => cases hme
    · rintro ⟨k, e, rfl, hm, he⟩
      exact ⟨e, ⟨_, hm, rfl⟩, he⟩
  | launch => simp [tidings]
  | turn i => simp [tidings]
  | wake => simp [tidings]

theorem failing_eq_some_of_none (h : join.tally.verdict = none)
    (hf : failing loop join = some failure) :
    loop.ready.findSome? (tidings join.members) = some failure :=
  (failing_of_none h loop).symm.trans hf

/-- While nothing is heard, only what is to be heard of matters. -/
theorem failing_of_tally {join' : Join ε φ α} (hf : failing loop join = some failure)
    (htally : join'.tally = join.tally)
    (hready : join.tally.verdict = none →
      loop'.ready.findSome? (tidings join'.members) = some failure) :
    failing loop' join' = some failure := by
  cases hv : join.tally.verdict with
  | some v => rwa [failing_of_verdict (htally ▸ hv), ← failing_of_verdict hv loop]
  | none => rw [failing_of_none (htally ▸ hv), hready hv]

theorem findSome?_congr {members members' : List (Member ε φ α)} {jobs : List JoinJob}
    (h : ∀ job ∈ jobs, tidings members' job = tidings members job) :
    jobs.findSome? (tidings members') = jobs.findSome? (tidings members) := by
  induction jobs with
  | nil => rfl
  | cons job rest ih =>
    rw [List.findSome?_cons, List.findSome?_cons, h job List.mem_cons_self,
      ih fun j hj => h j (List.mem_cons_of_mem _ hj)]

/-- Jobs that bring no failure do not count. -/
theorem findSome?_append_none {members : List (Member ε φ α)} {jobs added : List JoinJob}
    (h : ∀ job ∈ added, tidings members job = none) :
    (jobs ++ added).findSome? (tidings members) = jobs.findSome? (tidings members) := by
  rw [List.findSome?_append, List.findSome?_eq_none_iff.mpr h, Option.or_none]

namespace Accounts

/-- A member failed if the join is bound to fail. -/
theorem failing_some (h : Accounts loop join) (hs : join.tally.Sound)
    (hf : failing loop join = some failure) :
    ∃ (i : Nat) (e : Ending φ α),
      join.members[i]? = some (.ended e) ∧ e.failure? = some failure := by
  cases hv : join.tally.verdict with
  | some v =>
    rw [failing_of_verdict hv] at hf
    obtain ⟨e, he, hfail⟩ := hs.failed v failure hv hf
    obtain ⟨i, hi⟩ := List.mem_iff_getElem?.mp he
    exact ⟨i, e, h.heard_ended hi, hfail⟩
  | none =>
    rw [failing_of_none hv] at hf
    obtain ⟨job, -, hj⟩ := List.exists_of_findSome?_eq_some hf
    obtain ⟨i, e, -, hm, he⟩ := tidings_eq_some.mp hj
    exact ⟨i, e, hm, he⟩

/-- The end of a member is to be heard of, or was. -/
theorem heard_or_due (h : Accounts loop join) {i : Nat} {e : Ending φ α}
    (hm : join.members[i]? = some (.ended e)) :
    .hear i ∈ loop.ready ∧ join.tally.heard[i]? = some none ∨
      join.tally.heard[i]? = some (some e) := by
  have hs := h.seated i
  rw [hm] at hs
  rcases hs.2.2 with ⟨hone, hheard⟩ | ⟨-, hheard⟩
  · left
    refine ⟨?_, hheard⟩
    rcases Loop.mem_of_load (by omega : 0 < loop.load (.hear i)) with hr | ⟨gate, hw⟩
    · exact hr
    · obtain ⟨-, k, _, _, hk, -⟩ := h.waiting _ _ hw
      cases hk
  · exact .inr hheard

/-- No member has failed as long as the join is not bound to fail. -/
theorem failing_none (h : Accounts loop join) (hs : join.tally.Sound)
    (hf : failing loop join = none) {i : Nat} {e : Ending φ α}
    (hm : join.members[i]? = some (.ended e)) : e.failure? = none := by
  cases hv : join.tally.verdict with
  | some v =>
    rw [failing_of_verdict hv] at hf
    obtain ⟨values, rfl⟩ := Ending.failure?_eq_none.mp hf
    have hall := hs.returned values hv
    rcases h.heard_or_due hm with ⟨-, hheard⟩ | hheard
    · rw [hall] at hheard
      simp at hheard
    · rw [hall] at hheard
      obtain ⟨a, -, ha⟩ : ∃ a, values[i]? = some a ∧ Ending.returned a = e := by
        simpa using hheard
      rw [← ha]
      rfl
  | none =>
    rw [failing_of_none hv] at hf
    rcases h.heard_or_due hm with ⟨hdue, -⟩ | hheard
    · cases he : e.failure? with
      | none => rfl
      | some failure =>
        have hnone := List.findSome?_eq_none_iff.mp hf _ hdue
        rw [tidings_eq_some.mpr ⟨i, e, rfl, hm, he⟩] at hnone
        cases hnone
    · exact hs.undecided hv e (List.mem_of_getElem? hheard)

/-- Whoever failed is still to be heard of, so that a return heard of first brings no verdict. -/
theorem undecided_of_due (h : Accounts loop join) (hv : join.tally.verdict = none) {i : Nat}
    (hready : loop.ready = .hear i :: loop'.ready) {e : Ending φ α}
    (hm : join.members[i]? = some (.ended e)) (he : e.failure? = none)
    (hnow : loop'.ready.findSome? (tidings join.members) = some failure) :
    (join.tally.hear i e).verdict = none := by
  obtain ⟨a, rfl⟩ := Ending.failure?_eq_none.mp he
  obtain ⟨job, hjob, hj⟩ := List.exists_of_findSome?_eq_some hnow
  obtain ⟨k, e', rfl, hk, he'⟩ := tidings_eq_some.mp hj
  have hik : i ≠ k := by
    rintro rfl
    obtain rfl : Ending.returned a = e' := by simpa [hm] using hk
    cases he'
  have hload : 0 < loop.load (.hear k) := Loop.load_pos_of_ready (by simp [hready, hjob])
  obtain ⟨-, -, hunheard, -⟩ := h.hear_ended hload
  cases hvalues : Tally.values? (join.tally.hear i (.returned a)).heard with
  | none => simpa [Tally.hear, hv, Tally.judge] using hvalues
  | some values =>
    have hall := Tally.values?_eq_some.mp hvalues
    have hkth : (join.tally.hear i (.returned a)).heard[k]? = some none := by
      rw [Tally.getElem?_hear, if_neg hik, hunheard]
    rw [hall] at hkth
    simp at hkth

/-- **The first failure stays the first**, whatever job is carried out. -/
theorem failing_perform (h : Accounts loop join) (hnext : loop.next? = some (job, loop'))
    (hf : failing loop join = some failure) :
    failing (join.perform id loop' job).2.1 (join.perform id loop' job).2.2 = some failure := by
  obtain ⟨-, -, hready⟩ := Loop.waiting_next? hnext
  have hpos := Loop.load_pos_of_next? hnext
  have hfirst := fun hv => hready ▸ failing_eq_some_of_none hv hf
  cases job with
  | launch =>
    refine failing_of_tally hf rfl fun hv => ?_
    refine (findSome?_append_none fun job hjob => ?_).trans (hfirst hv)
    obtain ⟨k, -, rfl⟩ := List.mem_map.mp hjob
    rfl
  | wake => exact failing_of_tally hf rfl hfirst
  | turn i =>
    obtain ⟨⟨m, hm, hrunning⟩, -, -, -, hhear⟩ := h.turn_running hpos
    -- The member is not among those whose end is to be heard of.
    have hset : ∀ m' : Member ε φ α, loop'.ready.findSome? (tidings (join.members.set i m')) =
        loop'.ready.findSome? (tidings join.members) := by
      intro m'
      refine findSome?_congr fun job hjob => ?_
      cases job with
      | hear k =>
        have hik : i ≠ k := by
          rintro rfl
          have : 0 < loop.load (.hear i) := Loop.load_pos_of_ready (by simp [hready, hjob])
          omega
        simp [tidings, hik]
      | launch => rfl
      | turn k => rfl
      | wake => rfl
    rcases turnOf_spec loop'.isOpen hrunning none with
      ⟨events, e, ht, -⟩ | ⟨events, gate, farewell, rest, ht, -, -⟩
    · rw [perform_turn_over loop' hm ht]
      refine failing_of_tally hf rfl fun hv => ?_
      change (loop'.ready ++ [JoinJob.hear i]).findSome? (tidings (join.members.set i _)) = _
      have hbefore : loop'.ready.findSome? (tidings join.members) = some failure := hfirst hv
      rw [List.findSome?_append, hset, hbefore]
      rfl
    · rw [perform_turn_at loop' hm ht]
      exact failing_of_tally hf rfl fun hv => (hset _).trans (hfirst hv)
  | hear i =>
    obtain ⟨e, hm, hheard, hone, -⟩ := h.hear_ended hpos
    rw [Join.perform_hear loop' hm]
    cases hv : join.tally.verdict with
    | some v =>
      rw [failing_of_verdict hv] at hf
      rwa [failing_of_verdict (Tally.hear_of_verdict hv i e)]
    | none =>
      have hnow := failing_eq_some_of_none hv hf
      have htidings : tidings join.members (.hear i) = e.failure? := by
        simp [tidings, hm, Member.ending?]
      rw [hready, List.findSome?_cons, htidings] at hnow
      cases he : e.failure? with
      | some first =>
        rw [he] at hnow
        obtain ⟨v, hverdict, hfail⟩ := Tally.hear_failure hv i he
        rw [failing_of_verdict hverdict, hfail, ← hnow]
      | none =>
        rw [he] at hnow
        have hverdict := h.undecided_of_due hv hready hm he hnow
        have hwait : join.tally.decides i e = false := by
          simp [Tally.decides, hverdict]
        rw [hwait, failing_of_none hverdict]
        exact hnow

/-- Opening a gate brings no failure. -/
theorem failing_release (h : Accounts loop join) (gate : Gate) :
    failing (loop.release gate) join = failing loop join := by
  cases hv : join.tally.verdict with
  | some v => rw [failing_of_verdict hv, failing_of_verdict hv]
  | none =>
    rw [failing_of_none hv, failing_of_none hv]
    refine findSome?_append_none fun job hjob => ?_
    obtain ⟨p, hp, rfl⟩ := List.mem_map.mp hjob
    obtain ⟨-, i, _, _, hi, -⟩ := h.waiting p.1 p.2 (List.mem_of_mem_filter hp)
    rw [hi]
    rfl

end Accounts

/-- A job changes no member but the one whose turn it is. -/
theorem members_perform (loop : Loop JoinJob) {k : Nat} (h : job ≠ .turn k) :
    (join.perform id loop job).2.2.members[k]? = join.members[k]? := by
  cases job with
  | launch => rfl
  | wake => rfl
  | hear i =>
    simp only [perform, hear]
    split <;> rfl
  | turn i =>
    have hik : i ≠ k := fun e => h (e ▸ rfl)
    simp only [perform, turn]
    split
    · rfl
    · rw [List.getElem?_set_ne hik]

end DepGraph.Join
