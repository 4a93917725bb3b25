import Mathlib.Data.List.Basic
import Mathlib.Algebra.BigOperators.Group.Finset.Basic
import Mathlib.Algebra.Order.BigOperators.Group.Finset
import DepGraph.Proofs.Selection
import DepGraph.Proofs.Script
import DepGraph.Proofs.Tally

/-!
# The jobs that a join has in its loop

Every member of a join has exactly one job at any time: its first turns come with the launch, a
turn leaves it with another turn or with its end to be heard of, and nothing is heard twice. Jobs
wait only for members that go on at a closed gate.

* `Loop.load` — how often a job is due or waits.
* `Join.Accounts` — the jobs that the members have, and what was heard of them.
* `Join.Accounts.perform`, `Join.Accounts.release`, `Join.Accounts.abandon` — which is so after
  every job, every gate opened, and once the join is given up.
* `Join.effort` — what is left to do, which every job makes less: `Join.Accounts.effort_perform`.
-/

set_option autoImplicit false

namespace DepGraph

/-! ## Loads -/

namespace Loop

variable {J : Type} [DecidableEq J]

/-- How often a job is due or waits. -/
def load (loop : Loop J) (job : J) : Nat :=
  loop.ready.count job + (loop.waiting.map (·.2)).count job

theorem load_postAll (loop : Loop J) (jobs : List J) (job : J) :
    (loop.postAll jobs).load job = loop.load job + jobs.count job := by
  simp only [load, postAll, List.count_append]
  omega

theorem load_post (loop : Loop J) (added job : J) :
    (loop.post added).load job = loop.load job + if added = job then 1 else 0 := by
  rw [← postAll_singleton, load_postAll, List.count_singleton]
  simp

theorem load_park (loop : Loop J) (gate : Gate) (added job : J) :
    (loop.park gate added).load job = loop.load job + if added = job then 1 else 0 := by
  simp only [load, park, List.map_append, List.count_append, List.map_cons, List.map_nil,
    List.count_singleton, beq_iff_eq]
  omega

/-- Opening a gate moves jobs only. -/
theorem load_release (loop : Loop J) (gate : Gate) (job : J) :
    (loop.release gate).load job = loop.load job := by
  have hsplit : ∀ xs : List (Gate × J),
      ((xs.filter (·.1 == gate)).map (·.2)).count job +
        ((xs.filter (·.1 != gate)).map (·.2)).count job = (xs.map (·.2)).count job := by
    intro xs
    induction xs with
    | nil => rfl
    | cons p rest ih =>
      by_cases hg : p.1 = gate
      · simp only [hg, BEq.rfl, List.filter_cons_of_pos, List.map_cons, List.count_cons,
          bne_self_eq_false, Bool.false_eq_true, not_false_eq_true, List.filter_cons_of_neg]
        omega
      · simp only [beq_iff_eq, hg, not_false_eq_true, List.filter_cons_of_neg, bne_iff_ne, ne_eq,
          List.filter_cons_of_pos, List.map_cons, List.count_cons]
        omega
  have h := hsplit loop.waiting
  simp only [load, release, List.count_append]
  omega

omit [DecidableEq J] in
theorem isOpen_release (loop : Loop J) (gate other : Gate) :
    (loop.release gate).isOpen other = (loop.isOpen other || decide (other = gate)) := by
  have hopened : (loop.release gate).opened =
      if loop.isOpen gate then loop.opened else loop.opened ++ [gate] := rfl
  by_cases h : loop.isOpen gate = true
  · rw [isOpen, hopened, if_pos h]
    by_cases ho : other = gate
    · subst ho
      simpa [isOpen] using h
    · simp [isOpen, ho]
  · rw [isOpen, hopened, if_neg h]
    simp [isOpen, List.contains_eq_mem]

/-- Making a waiting job due at once moves that job only. -/
theorem load_withdraw {loop : Loop J} {moved : J} (h : loop.load moved ≤ 1) (job : J) :
    (loop.withdraw moved).load job = loop.load job := by
  have hrest : ∀ xs : List (Gate × J), ((xs.filter (·.2 ≠ moved)).map (·.2)).count job =
      if moved = job then 0 else (xs.map (·.2)).count job := by
    intro xs
    induction xs with
    | nil => simp
    | cons p rest ih =>
      by_cases hp : p.2 = moved
      · rw [List.filter_cons_of_neg (by simpa using hp), ih]
        split
        · rfl
        · rename_i hne
          rw [List.map_cons, List.count_cons, hp, if_neg (by simpa using hne), Nat.add_zero]
      · rw [List.filter_cons_of_pos (by simpa using hp), List.map_cons, List.count_cons, ih,
          List.map_cons, List.count_cons]
        split
        · rename_i heq
          rw [if_neg (by simpa [heq] using hp)]
        · rfl
  unfold withdraw
  split
  · rename_i hany
    have hpos : 0 < (loop.waiting.map (·.2)).count moved := by
      obtain ⟨p, hp, hm⟩ := List.any_eq_true.mp hany
      exact List.count_pos_iff.mpr (List.mem_map.mpr ⟨p, hp, by simpa using hm⟩)
    simp only [load] at h
    simp only [load, List.count_append, hrest, List.count_singleton, beq_iff_eq]
    split
    · rename_i heq
      subst heq
      omega
    · omega
  · rfl

theorem load_withdrawAll {loop : Loop J} {moved : List J} (h : ∀ job ∈ moved, loop.load job ≤ 1)
    (job : J) : (loop.withdrawAll moved).load job = loop.load job := by
  induction moved generalizing loop with
  | nil => rfl
  | cons first rest ih =>
    have hfirst := load_withdraw (h first List.mem_cons_self)
    have hrest := @ih (loop.withdraw first) fun j hj => by
      rw [hfirst]
      exact h j (List.mem_cons_of_mem _ hj)
    exact hrest.trans (hfirst job)

theorem waiting_withdraw {loop : Loop J} {moved : J} {p : Gate × J}
    (h : p ∈ (loop.withdraw moved).waiting) : p ∈ loop.waiting ∧ p.2 ≠ moved := by
  unfold withdraw at h
  split at h
  · simpa using List.mem_filter.mp h
  · rename_i hany
    refine ⟨h, fun hp => hany (List.any_eq_true.mpr ⟨p, h, by simpa using hp⟩)⟩

theorem waiting_withdrawAll {loop : Loop J} {moved : List J} {p : Gate × J}
    (h : p ∈ (loop.withdrawAll moved).waiting) : p ∈ loop.waiting ∧ p.2 ∉ moved := by
  induction moved generalizing loop with
  | nil => exact ⟨h, by simp⟩
  | cons first rest ih =>
    obtain ⟨hmem, hrest⟩ := @ih (loop.withdraw first) h
    obtain ⟨hmem', hfirst⟩ := waiting_withdraw hmem
    exact ⟨hmem', by simp [hfirst, hrest]⟩

theorem load_next? {loop loop' : Loop J} {first : J} (h : loop.next? = some (first, loop'))
    (job : J) : loop.load job = loop'.load job + if first = job then 1 else 0 := by
  unfold next? at h
  split at h
  · cases h
  · rename_i job' rest hready
    cases h
    simp only [load, hready, List.count_cons, beq_iff_eq]
    omega

omit [DecidableEq J] in
theorem waiting_next? {loop loop' : Loop J} {first : J} (h : loop.next? = some (first, loop')) :
    loop'.waiting = loop.waiting ∧ loop'.opened = loop.opened ∧
      loop.ready = first :: loop'.ready := by
  unfold next? at h
  split at h
  · cases h
  · rename_i job' rest hready
    cases h
    exact ⟨rfl, rfl, hready⟩

theorem mem_of_load {loop : Loop J} {job : J} (h : 0 < loop.load job) :
    job ∈ loop.ready ∨ ∃ gate, (gate, job) ∈ loop.waiting := by
  by_cases hr : job ∈ loop.ready
  · exact .inl hr
  · right
    have hw : 0 < (loop.waiting.map (·.2)).count job := by
      simp only [load, List.count_eq_zero.mpr hr] at h
      omega
    obtain ⟨⟨gate, job'⟩, hp, rfl⟩ := List.mem_map.mp (List.count_pos_iff.mp hw)
    exact ⟨gate, hp⟩

theorem load_pos_of_ready {loop : Loop J} {job : J} (h : job ∈ loop.ready) : 0 < loop.load job := by
  have := List.count_pos_iff.mpr h
  unfold load
  omega

theorem load_pos_of_next? {loop loop' : Loop J} {job : J} (h : loop.next? = some (job, loop')) :
    0 < loop.load job := by
  obtain ⟨-, -, hready⟩ := waiting_next? h
  exact load_pos_of_ready (by simp [hready])

/-- A job that is there once does not wait while it is due. -/
theorem notMem_waiting {loop loop' : Loop J} {job : J} (hone : loop.load job = 1)
    (h : loop.next? = some (job, loop')) (gate : Gate) : (gate, job) ∉ loop.waiting := by
  obtain ⟨-, -, hready⟩ := waiting_next? h
  intro hmem
  have hw : 0 < (loop.waiting.map (·.2)).count job :=
    List.count_pos_iff.mpr (List.mem_map.mpr ⟨_, hmem, rfl⟩)
  have hr : 0 < loop.ready.count job := List.count_pos_iff.mpr (by simp [hready])
  unfold load at hone
  omega

end Loop

/-! ## Accounts -/

namespace Join

variable {ε φ α : Type} {loop loop' : Loop JoinJob} {join : Join ε φ α} {job : JoinJob}

/-- The jobs that the member at place `i` has, and whether the join has heard of its end. -/
def Seated (loop : Loop JoinJob) (i : Nat) : Option (Member ε φ α) → Option (Option (Ending φ α)) →
    Prop
  | some (.active _ _), heard =>
    loop.load (.turn i) + loop.load .launch = 1 ∧ loop.load (.hear i) = 0 ∧ heard = some none
  | some (.stopped _), heard =>
    loop.load (.turn i) = 1 ∧ loop.load .launch = 0 ∧ loop.load (.hear i) = 0 ∧ heard = some none
  | some (.ended e), heard =>
    loop.load (.turn i) = 0 ∧ loop.load .launch = 0 ∧
      (loop.load (.hear i) = 1 ∧ heard = some none ∨
        loop.load (.hear i) = 0 ∧ heard = some (some e))
  | none, heard => loop.load (.turn i) = 0 ∧ loop.load (.hear i) = 0 ∧ heard = none

/-- The jobs that the members of a join have, and what was heard of them. -/
structure Accounts (loop : Loop JoinJob) (join : Join ε φ α) : Prop where
  seated : ∀ i, Seated loop i join.members[i]? join.tally.heard[i]?
  launch : loop.load .launch ≤ 1
  waiting : ∀ gate job, (gate, job) ∈ loop.waiting → loop.isOpen gate = false ∧
    ∃ i farewell rest, job = .turn i ∧ join.members[i]? = some (.active farewell rest)

theorem Seated.congr {i : Nat} {m : Option (Member ε φ α)} {heard : Option (Option (Ending φ α))}
    (h : Seated loop i m heard) (hturn : loop'.load (.turn i) = loop.load (.turn i))
    (hhear : loop'.load (.hear i) = loop.load (.hear i))
    (hlaunch : loop'.load .launch = loop.load .launch) : Seated loop' i m heard := by
  unfold Seated at *
  rw [hturn, hhear, hlaunch]
  exact h

theorem accounts_ofScripts (scripts : List (Script ε φ α)) (opened : List Gate) :
    Accounts { ready := [.launch], opened } (Join.ofScripts scripts) := by
  refine ⟨fun i => ?_, by simp [Loop.load], by simp⟩
  by_cases hi : i < scripts.length
  · have hm : (Join.ofScripts scripts).members[i]? = some (.active [] scripts[i]) := by
      simp [ofScripts, hi]
    have hh : (Join.ofScripts scripts).tally.heard[i]? = some none := by
      simp [ofScripts, Tally.start, hi]
    rw [hm, hh]
    exact ⟨by simp [Loop.load], by simp [Loop.load], rfl⟩
  · have hm : (Join.ofScripts scripts).members[i]? = none := by
      simpa [ofScripts] using hi
    have hh : (Join.ofScripts scripts).tally.heard[i]? = none := by
      simpa [ofScripts, Tally.start, List.getElem?_replicate] using hi
    rw [hm, hh]
    exact ⟨by simp [Loop.load], by simp [Loop.load], rfl⟩

namespace Accounts

/-- A member that has a job to be heard of has ended, and was not heard of. -/
theorem hear_ended (h : Accounts loop join) {i : Nat} (hi : 0 < loop.load (.hear i)) :
    ∃ e, join.members[i]? = some (.ended e) ∧ join.tally.heard[i]? = some none ∧
      loop.load (.hear i) = 1 ∧ loop.load (.turn i) = 0 := by
  have hs := h.seated i
  unfold Seated at hs
  split at hs
  · omega
  · omega
  · rename_i e hm
    obtain ⟨hturn, -, ⟨hhear, hheard⟩ | ⟨hhear, -⟩⟩ := hs
    · exact ⟨e, hm, hheard, hhear, hturn⟩
    · omega
  · omega

/-- A member that has a turn has not ended. -/
theorem turn_running (h : Accounts loop join) {i : Nat} (hi : 0 < loop.load (.turn i)) :
    (∃ m, join.members[i]? = some m ∧ m.ending? = none) ∧ join.tally.heard[i]? = some none ∧
      loop.load (.turn i) = 1 ∧ loop.load .launch = 0 ∧ loop.load (.hear i) = 0 := by
  have hs := h.seated i
  unfold Seated at hs
  split at hs
  · rename_i farewell rest hm
    exact ⟨⟨_, hm, rfl⟩, hs.2.2, by omega, by omega, by omega⟩
  · rename_i farewell hm
    exact ⟨⟨_, hm, rfl⟩, hs.2.2.2, by omega, by omega, by omega⟩
  · omega
  · omega

/-- While the launch is due no member has had a turn. -/
theorem launch_first (h : Accounts loop join) (hl : 0 < loop.load .launch) {i : Nat}
    {m : Member ε φ α} (hm : join.members[i]? = some m) :
    (∃ farewell rest, m = .active farewell rest) ∧ loop.load (.turn i) = 0 ∧
      loop.load (.hear i) = 0 ∧ join.tally.heard[i]? = some none := by
  have hs := h.seated i
  have hone := h.launch
  rw [hm] at hs
  cases m with
  | active farewell rest => exact ⟨⟨_, _, rfl⟩, by have := hs.1; omega, hs.2.1, hs.2.2⟩
  | stopped farewell => have := hs.2.1; omega
  | ended e => have := hs.2.1; omega

/-- As much is known of the members as there are. -/
theorem length_eq (h : Accounts loop join) : join.tally.heard.length = join.members.length := by
  have hnone : ∀ i : Nat, join.members[i]? = none ↔ join.tally.heard[i]? = none := by
    intro i
    have hs := h.seated i
    unfold Seated at hs
    split at hs
    · rename_i hm
      simp [hm, hs.2.2]
    · rename_i hm
      simp [hm, hs.2.2.2]
    · rename_i hm
      rcases hs.2.2 with ⟨-, hh⟩ | ⟨-, hh⟩ <;> simp [hm, hh]
    · rename_i hm
      simp [hm, hs.2.2]
  have h₁ := (hnone join.members.length).mp (by simp)
  have h₂ := (hnone join.tally.heard.length).mpr (by simp)
  simp only [List.getElem?_eq_none_iff] at h₁ h₂
  omega

/-- What was heard of a member is its ending. -/
theorem heard_ended (h : Accounts loop join) {i : Nat} {e : Ending φ α}
    (hi : join.tally.heard[i]? = some (some e)) : join.members[i]? = some (.ended e) := by
  have hs := h.seated i
  unfold Seated at hs
  split at hs
  · simp [hi] at hs
  · simp [hi] at hs
  · rename_i e' hm
    simp only [hi, Option.some.injEq, reduceCtorEq, and_false, false_or] at hs
    rw [hm, hs.2.2.2]
  · simp [hi] at hs

/-- The launch gives every member its first turn. -/
theorem perform_launch (h : Accounts loop join) (hnext : loop.next? = some (.launch, loop')) :
    Accounts (loop'.postAll ((List.range join.members.length).map .turn)) join := by
  have hload := Loop.load_next? hnext
  obtain ⟨hwaiting, hopened, -⟩ := Loop.waiting_next? hnext
  have hone := h.launch
  have hlaunch := hload .launch
  have hcount : ∀ i, ((List.range join.members.length).map JoinJob.turn).count (.turn i) =
      if i < join.members.length then 1 else 0 := by
    intro i
    rw [List.count_map_of_injective _ _ (fun a b hab => by cases hab; rfl)]
    split
    · rename_i hi
      exact List.count_eq_one_of_mem List.nodup_range (List.mem_range.mpr hi)
    · rename_i hi
      exact List.count_eq_zero.mpr (by simpa using hi)
  have hother : ∀ job, (∀ i, job ≠ .turn i) →
      ((List.range join.members.length).map JoinJob.turn).count job = 0 := by
    intro job hjob
    refine List.count_eq_zero.mpr fun hmem => ?_
    obtain ⟨i, -, rfl⟩ := List.mem_map.mp hmem
    exact hjob i rfl
  simp only [if_pos] at hlaunch
  refine ⟨fun i => ?_, ?_, fun gate job hmem => ?_⟩
  · have hturn := hload (.turn i)
    have hhear := hload (.hear i)
    simp only [reduceCtorEq, if_false, Nat.add_zero] at hturn hhear
    cases hm : join.members[i]? with
    | none =>
      have hs := h.seated i
      rw [hm] at hs
      have hlen : ¬i < join.members.length := by simpa using hm
      refine ⟨?_, ?_, hs.2.2⟩
      · rw [Loop.load_postAll, hcount, if_neg hlen, ← hturn, hs.1]
      · rw [Loop.load_postAll, hother _ (by simp), ← hhear, hs.2.1]
    | some m =>
      obtain ⟨⟨farewell, rest, rfl⟩, hs⟩ := h.launch_first (by omega) hm
      have hlen : i < join.members.length := (List.getElem?_eq_some_iff.mp hm).1
      refine ⟨?_, ?_, hs.2.2⟩
      · rw [Loop.load_postAll, Loop.load_postAll, hcount, if_pos hlen, hother .launch (by simp)]
        omega
      · rw [Loop.load_postAll, hother _ (by simp)]
        omega
  · rw [Loop.load_postAll, hother _ (by simp)]
    omega
  · have hw := h.waiting gate job (by rw [← hwaiting]; exact hmem)
    refine ⟨?_, hw.2⟩
    rw [← hw.1]
    simp only [Loop.isOpen, Loop.postAll, hopened]

/-! ## Turns -/

end Accounts

/-- The jobs that a member may still need: one for each gate ahead, its turns and the hearing of
its end. -/
def effortOf : Option (Member ε φ α) → Option (Option (Ending φ α)) → Nat
  | some (.active _ rest), _ => rest.holds + 2
  | some (.stopped _), _ => 2
  | some (.ended _), some none => 1
  | _, _ => 0

/-- What a turn of a member comes to: it ends, or it waits at a closed gate, with fewer gates
ahead. -/
theorem turnOf_spec (isOpen : Gate → Bool) {m : Member ε φ α} (hm : m.ending? = none)
    (heard : Option (Option (Ending φ α))) :
    (∃ events e, turnOf isOpen m = (events, .ended e, .finished) ∧ 1 < effortOf (some m) heard) ∨
    ∃ events gate farewell rest, turnOf isOpen m = (events, .active farewell rest, .at gate) ∧
      isOpen gate = false ∧ rest.holds + 2 < effortOf (some m) heard := by
  cases m with
  | active farewell rest =>
    rcases rest.advance_spec isOpen with
      ⟨events, h, _⟩ | ⟨events, gate, farewell', rest', h, _, hg, hh⟩
    · refine .inl ⟨events, rest.ending, by simp [turnOf, h], ?_⟩
      simp only [effortOf]
      omega
    · refine .inr ⟨events, gate, farewell', rest', by simp [turnOf, h], hg, ?_⟩
      simp only [effortOf]
      omega
  | stopped farewell => exact .inl ⟨farewell, .cancelled, rfl, by simp [effortOf]⟩
  | ended e => cases hm

theorem perform_turn_over (loop : Loop JoinJob) {i : Nat} {m : Member ε φ α}
    (hm : join.members[i]? = some m) {events : List ε} {e : Ending φ α}
    (ht : turnOf loop.isOpen m = (events, .ended e, .finished)) :
    join.perform id loop (.turn i) =
      (events, loop.post (.hear i), { join with members := join.members.set i (.ended e) }) := by
  simp [perform, turn, hm, ht]

theorem perform_turn_at (loop : Loop JoinJob) {i : Nat} {m m' : Member ε φ α}
    (hm : join.members[i]? = some m) {events : List ε} {gate : Gate}
    (ht : turnOf loop.isOpen m = (events, m', .at gate)) :
    join.perform id loop (.turn i) =
      (events, loop.park gate (.turn i), { join with members := join.members.set i m' }) := by
  simp [perform, turn, hm, ht]

theorem perform_hear (loop : Loop JoinJob) {i : Nat} {e : Ending φ α}
    (hm : join.members[i]? = some (.ended e)) :
    join.perform id loop (.hear i) =
      ([], if join.tally.decides i e then loop.post .wake else loop,
        { join with tally := join.tally.hear i e }) := by
  simp [perform, hear, hm, Member.ending?]

namespace Accounts

/-- A member whose turn is carried out waits at a closed gate or has its end to be heard of. -/
theorem perform_turn (h : Accounts loop join) {i : Nat}
    (hnext : loop.next? = some (.turn i, loop')) :
    Accounts (join.perform id loop' (.turn i)).2.1 (join.perform id loop' (.turn i)).2.2 := by
  have hload := Loop.load_next? hnext
  obtain ⟨hwaiting, hopened, -⟩ := Loop.waiting_next? hnext
  have hpos := Loop.load_pos_of_next? hnext
  obtain ⟨⟨m, hm, hrunning⟩, hheard, hone, hlaunch, hhear⟩ := h.turn_running hpos
  have hturn := hload (.turn i)
  have hlt : i < join.members.length := (List.getElem?_eq_some_iff.mp hm).1
  simp only [if_pos] at hturn
  have hl := hload .launch
  have hhr := hload (.hear i)
  simp only [reduceCtorEq, if_false, Nat.add_zero] at hl hhr
  -- The others have the jobs that they had.
  have hothers : ∀ (after : Loop JoinJob) (m' : Member ε φ α) (k : Nat), i ≠ k →
      (∀ job, job ≠ .turn i → job ≠ .hear i → after.load job = loop'.load job) →
      Seated after k (join.members.set i m')[k]? join.tally.heard[k]? := by
    intro after m' k hk hafter
    rw [List.getElem?_set_ne hk]
    have hsame : ∀ job, job ≠ .turn i → job ≠ .hear i → after.load job = loop.load job := by
      intro job h₁ h₂
      rw [hafter job h₁ h₂, hload job, if_neg (Ne.symm h₁), Nat.add_zero]
    exact (h.seated k).congr (hsame _ (by simp [Ne.symm hk]) (by simp))
      (hsame _ (by simp) (by simp [Ne.symm hk])) (hsame _ (by simp) (by simp))
  -- What waits besides belongs to another member, because this one had its turn due.
  have hwait : ∀ (m' : Member ε φ α) gate job, (gate, job) ∈ loop'.waiting →
      loop'.isOpen gate = false ∧ ∃ k farewell rest, job = .turn k ∧
        (join.members.set i m')[k]? = some (.active farewell rest) := by
    intro m' gate job hmem
    rw [hwaiting] at hmem
    obtain ⟨hclosed, k, farewell, rest, rfl, hk⟩ := h.waiting gate job hmem
    refine ⟨by rw [← hclosed, Loop.isOpen, hopened]; rfl, k, farewell, rest, rfl, ?_⟩
    have hik : i ≠ k := by
      rintro rfl
      exact Loop.notMem_waiting hone hnext gate hmem
    rw [List.getElem?_set_ne hik, hk]
  rcases turnOf_spec loop'.isOpen hrunning none with
    ⟨events, e, ht, -⟩ | ⟨events, gate, farewell, rest, ht, hclosed, -⟩
  · rw [perform_turn_over loop' hm ht]
    refine ⟨fun k => ?_, ?_, fun gate job hmem => hwait _ gate job hmem⟩
    · by_cases hk : i = k
      · subst hk
        rw [List.getElem?_set_self hlt, hheard]
        refine ⟨?_, ?_, .inl ⟨?_, rfl⟩⟩ <;> rw [Loop.load_post]
        · simp only [reduceCtorEq, if_false]
          omega
        · simp only [reduceCtorEq, if_false]
          omega
        · simp only [if_pos]
          omega
      · exact hothers _ _ k hk fun job _ h₂ => by
          rw [Loop.load_post, if_neg (Ne.symm h₂), Nat.add_zero]
    · rw [Loop.load_post]
      simp only [reduceCtorEq, if_false]
      omega
  · rw [perform_turn_at loop' hm ht]
    refine ⟨fun k => ?_, ?_, fun gate' job hmem => ?_⟩
    · by_cases hk : i = k
      · subst hk
        rw [List.getElem?_set_self hlt, hheard]
        refine ⟨?_, ?_, rfl⟩
        · rw [Loop.load_park, Loop.load_park]
          simp only [if_pos, reduceCtorEq, if_false]
          omega
        · rw [Loop.load_park]
          simp only [reduceCtorEq, if_false]
          omega
      · exact hothers _ _ k hk fun job h₁ _ => by
          rw [Loop.load_park, if_neg (Ne.symm h₁), Nat.add_zero]
    · rw [Loop.load_park]
      simp only [reduceCtorEq, if_false]
      omega
    · rcases List.mem_append.mp hmem with hmem | hmem
      · exact hwait _ gate' job hmem
      · cases List.mem_singleton.mp hmem
        exact ⟨hclosed, i, farewell, rest, rfl, List.getElem?_set_self hlt⟩

/-- Once its end is heard of a member has no jobs any more. -/
theorem perform_hear (h : Accounts loop join) {i : Nat}
    (hnext : loop.next? = some (.hear i, loop')) :
    Accounts (join.perform id loop' (.hear i)).2.1 (join.perform id loop' (.hear i)).2.2 := by
  have hload := Loop.load_next? hnext
  obtain ⟨hwaiting, hopened, hready⟩ := Loop.waiting_next? hnext
  have hpos := Loop.load_pos_of_next? hnext
  obtain ⟨e, hm, hheard, hone, hturn⟩ := h.hear_ended hpos
  rw [Join.perform_hear loop' hm]
  -- A wake that comes to be due is nobody's job.
  have hafter : ∀ job, job ≠ .wake →
      (if join.tally.decides i e then loop'.post .wake else loop').load job = loop'.load job := by
    intro job hjob
    split
    · rw [Loop.load_post, if_neg (Ne.symm hjob), Nat.add_zero]
    · rfl
  have hsame : ∀ job, job ≠ .wake → job ≠ .hear i →
      (if join.tally.decides i e then loop'.post .wake else loop').load job = loop.load job := by
    intro job h₁ h₂
    rw [hafter job h₁, hload job, if_neg (Ne.symm h₂), Nat.add_zero]
  refine ⟨fun k => ?_, ?_, fun gate job hmem => ?_⟩
  · have hk := Tally.getElem?_hear join.tally i k e
    by_cases hik : i = k
    · subst hik
      rw [if_pos rfl, hheard] at hk
      have hs := h.seated i
      have hhear := hload (.hear i)
      simp only [if_pos] at hhear
      rw [hm] at hs ⊢
      rw [hk]
      refine ⟨?_, ?_, .inr ⟨?_, rfl⟩⟩
      · rw [hsame _ (by simp) (by simp)]
        exact hs.1
      · rw [hsame _ (by simp) (by simp)]
        exact hs.2.1
      · rw [hafter _ (by simp)]
        omega
    · rw [if_neg hik] at hk
      rw [hk]
      exact (h.seated k).congr (hsame _ (by simp) (by simp))
        (hsame _ (by simp) (by simp [Ne.symm hik])) (hsame _ (by simp) (by simp))
  · rw [hsame _ (by simp) (by simp)]
    exact h.launch
  · have hmem' : (gate, job) ∈ loop.waiting := by
      rw [← hwaiting]
      split at hmem <;> exact hmem
    obtain ⟨hclosed, hactive⟩ := h.waiting gate job hmem'
    refine ⟨?_, hactive⟩
    rw [← hclosed]
    split <;> simp only [Loop.isOpen, Loop.post, hopened]

theorem perform_wake (h : Accounts loop join) (hnext : loop.next? = some (.wake, loop')) :
    Accounts loop' join := by
  have hload := Loop.load_next? hnext
  obtain ⟨hwaiting, hopened, -⟩ := Loop.waiting_next? hnext
  have hsame : ∀ job, job ≠ .wake → loop'.load job = loop.load job := by
    intro job hjob
    rw [hload job, if_neg (Ne.symm hjob), Nat.add_zero]
  refine ⟨fun i => (h.seated i).congr (hsame _ (by simp)) (hsame _ (by simp)) (hsame _ (by simp)),
    ?_, fun gate job hmem => ?_⟩
  · rw [hsame _ (by simp)]
    exact h.launch
  · obtain ⟨hclosed, hactive⟩ := h.waiting gate job (by rw [← hwaiting]; exact hmem)
    exact ⟨by rw [← hclosed, Loop.isOpen, hopened]; rfl, hactive⟩

/-- **Every job leaves the accounts in order.** -/
theorem perform (h : Accounts loop join) (hnext : loop.next? = some (job, loop')) :
    Accounts (join.perform id loop' job).2.1 (join.perform id loop' job).2.2 := by
  cases job with
  | launch => exact h.perform_launch hnext
  | turn i => exact h.perform_turn hnext
  | hear i => exact h.perform_hear hnext
  | wake => exact h.perform_wake hnext

/-- Opening a gate leaves the accounts in order. -/
theorem release (h : Accounts loop join) (gate : Gate) : Accounts (loop.release gate) join := by
  refine ⟨fun i => (h.seated i).congr (loop.load_release gate _) (loop.load_release gate _)
    (loop.load_release gate _), ?_, fun gate' job hmem => ?_⟩
  · rw [Loop.load_release]
    exact h.launch
  · obtain ⟨hmem, hne⟩ := List.mem_filter.mp hmem
    obtain ⟨hclosed, hactive⟩ := h.waiting gate' job hmem
    refine ⟨?_, hactive⟩
    rw [Loop.isOpen_release, hclosed]
    simpa using hne

end Accounts

theorem mem_active {i : Nat} :
    i ∈ join.active ↔ ∃ farewell rest, join.members[i]? = some (.active farewell rest) := by
  simp only [active, List.mem_filter, List.mem_range]
  constructor
  · rintro ⟨-, h⟩
    cases hm : join.members[i]? with
    | none => simp [hm] at h
    | some m =>
      cases m with
      | active farewell rest => exact ⟨farewell, rest, rfl⟩
      | stopped farewell => simp [hm, Member.isActive] at h
      | ended e => simp [hm, Member.isActive] at h
  · rintro ⟨farewell, rest, hm⟩
    exact ⟨(List.getElem?_eq_some_iff.mp hm).1, by simp [hm, Member.isActive]⟩

/-- **Giving up leaves the accounts in order**, and nothing waits any more. -/
theorem Accounts.abandon (h : Accounts loop join) (hlaunch : loop.load .launch = 0) :
    Accounts (join.abandon id loop).1 (join.abandon id loop).2 ∧
      (∀ job, (join.abandon id loop).1.load job = loop.load job) ∧
      (join.abandon id loop).1.waiting = [] := by
  have hactive : ∀ job, job ∈ join.active.map (fun i => id (JoinJob.turn i)) ↔
      ∃ i farewell rest, job = .turn i ∧ join.members[i]? = some (.active farewell rest) := by
    intro job
    simp only [List.mem_map, mem_active, id_eq]
    constructor
    · rintro ⟨i, ⟨farewell, rest, hm⟩, rfl⟩
      exact ⟨i, farewell, rest, rfl, hm⟩
    · rintro ⟨i, farewell, rest, rfl, hm⟩
      exact ⟨i, ⟨farewell, rest, hm⟩, rfl⟩
  have hload : ∀ job, (join.abandon id loop).1.load job = loop.load job := by
    refine Loop.load_withdrawAll fun job hjob => ?_
    obtain ⟨i, farewell, rest, rfl, hm⟩ := (hactive job).mp hjob
    have hs := h.seated i
    rw [hm] at hs
    have := hs.1
    omega
  have hwaiting : (join.abandon id loop).1.waiting = [] := by
    refine List.eq_nil_iff_forall_not_mem.mpr fun p hp => ?_
    obtain ⟨gate, job⟩ := p
    obtain ⟨hmem, hnot⟩ := Loop.waiting_withdrawAll hp
    obtain ⟨-, i, farewell, rest, rfl, hm⟩ := h.waiting gate job hmem
    exact hnot ((hactive _).mpr ⟨i, farewell, rest, rfl, hm⟩)
  refine ⟨⟨fun i => ?_, ?_, fun gate job hmem => ?_⟩, hload, hwaiting⟩
  · have hs := (h.seated i).congr (hload (.turn i)) (hload (.hear i)) (hload .launch)
    have hstop : (join.abandon id loop).2.members[i]? = (join.members[i]?).map Member.stop := by
      simp [Join.abandon, stop]
    have hheard : (join.abandon id loop).2.tally = join.tally := rfl
    have hlaunch' := (hload .launch).trans hlaunch
    rw [hstop, hheard]
    cases hm : join.members[i]? with
    | none =>
      rw [hm] at hs
      exact hs
    | some m =>
      rw [hm] at hs
      cases m with
      | active farewell rest =>
        obtain ⟨h₁, h₂, h₃⟩ := hs
        exact ⟨by omega, hlaunch', h₂, h₃⟩
      | stopped farewell => exact hs
      | ended e => exact hs
  · rw [hload]
    exact h.launch
  · rw [hwaiting] at hmem
    cases hmem

/-! ## What is left to do -/

/-- What is left to do, counted so that every job makes it less. -/
def effort (loop : Loop JoinJob) (join : Join ε φ α) : Nat :=
  loop.load .wake + loop.load .launch +
    2 * ∑ i ∈ Finset.range join.members.length, effortOf join.members[i]? join.tally.heard[i]?

theorem effort_congr (hwake : loop'.load .wake = loop.load .wake)
    (hlaunch : loop'.load .launch = loop.load .launch) : effort loop' join = effort loop join := by
  simp only [effort, hwake, hlaunch]

/-- The effort of one member gone down is the effort of all gone down. -/
theorem sum_effort_lt {before after : Nat → Nat} {n i : Nat} (hi : i < n)
    (hother : ∀ k, i ≠ k → after k = before k) (hlt : after i < before i) :
    ∑ k ∈ Finset.range n, after k < ∑ k ∈ Finset.range n, before k := by
  refine Finset.sum_lt_sum (fun k _ => ?_) ⟨i, Finset.mem_range.mpr hi, hlt⟩
  by_cases hk : i = k
  · exact hk ▸ hlt.le
  · exact (hother k hk).le

/-- **Every job leaves less to do.** -/
theorem Accounts.effort_perform (h : Accounts loop join) (hnext : loop.next? = some (job, loop')) :
    effort (join.perform id loop' job).2.1 (join.perform id loop' job).2.2 < effort loop join := by
  have hload := Loop.load_next? hnext
  have hpos := Loop.load_pos_of_next? hnext
  have hwake := hload .wake
  have hlaunch := hload .launch
  cases job with
  | launch =>
    have hcount : ∀ job, (∀ i, job ≠ JoinJob.turn i) →
        ((List.range join.members.length).map fun i => id (JoinJob.turn i)).count job = 0 := by
      intro job hjob
      refine List.count_eq_zero.mpr fun hmem => ?_
      obtain ⟨i, -, rfl⟩ := List.mem_map.mp hmem
      exact hjob i rfl
    simp only [Join.perform, effort, Loop.load_postAll, hcount .wake (by simp),
      hcount .launch (by simp)]
    simp only [reduceCtorEq, if_false, if_pos] at hwake hlaunch
    omega
  | turn i =>
    obtain ⟨⟨m, hm, hrunning⟩, hheard, -⟩ := h.turn_running hpos
    have hlt : i < join.members.length := (List.getElem?_eq_some_iff.mp hm).1
    simp only [reduceCtorEq, if_false, Nat.add_zero] at hwake hlaunch
    have hsum : ∀ m' : Member ε φ α,
        effortOf (some m') (some none) < effortOf (some m) (some none) →
        ∑ k ∈ Finset.range (join.members.set i m').length,
            effortOf (join.members.set i m')[k]? join.tally.heard[k]? <
          ∑ k ∈ Finset.range join.members.length,
            effortOf join.members[k]? join.tally.heard[k]? := by
      intro m' hless
      rw [List.length_set]
      refine sum_effort_lt hlt (fun k hk => by rw [List.getElem?_set_ne hk]) ?_
      rw [List.getElem?_set_self hlt, hm, hheard]
      exact hless
    rcases turnOf_spec loop'.isOpen hrunning (some none) with
      ⟨events, e, ht, hless⟩ | ⟨events, gate, farewell, rest, ht, -, hless⟩
    · rw [perform_turn_over loop' hm ht]
      have := hsum (.ended e) hless
      simp only [effort, Loop.load_post, reduceCtorEq, if_false]
      omega
    · rw [perform_turn_at loop' hm ht]
      have := hsum (.active farewell rest) hless
      simp only [effort, Loop.load_park, reduceCtorEq, if_false]
      omega
  | hear i =>
    obtain ⟨e, hm, hheard, -⟩ := h.hear_ended hpos
    have hlt : i < join.members.length := (List.getElem?_eq_some_iff.mp hm).1
    simp only [reduceCtorEq, if_false, Nat.add_zero] at hwake hlaunch
    rw [Join.perform_hear loop' hm]
    have hsum : ∑ k ∈ Finset.range join.members.length,
          effortOf join.members[k]? (join.tally.hear i e).heard[k]? <
        ∑ k ∈ Finset.range join.members.length, effortOf join.members[k]? join.tally.heard[k]? := by
      refine sum_effort_lt hlt (fun k hk => by rw [Tally.getElem?_hear, if_neg hk]) ?_
      rw [Tally.getElem?_hear, if_pos rfl, hm, hheard]
      simp [effortOf]
    simp only [effort]
    split
    · simp only [Loop.load_post, if_pos, reduceCtorEq, if_false]
      omega
    · omega
  | wake =>
    simp only [reduceCtorEq, if_false, if_pos] at hwake hlaunch
    simp only [Join.perform, effort]
    omega

/-- While the join has jobs to do and none is due, a member waits at a closed gate. -/
theorem Accounts.waits (h : Accounts loop join) (hsound : join.tally.Sound)
    (hwake : loop.load .wake = if join.tally.verdict.isSome then 1 else 0)
    (hlaunch : join.members = [] → 0 < loop.load .launch) (hidle : loop.ready = []) :
    ∃ p, p ∈ loop.waiting := by
  have hsome : ∀ job, 0 < loop.load job → ∃ gate, (gate, job) ∈ loop.waiting := by
    intro job hjob
    rcases Loop.mem_of_load hjob with hr | hw
    · rw [hidle] at hr
      cases hr
    · exact hw
  have hverdict : join.tally.verdict = none := by
    cases hv : join.tally.verdict with
    | none => rfl
    | some v =>
      obtain ⟨gate, hw⟩ := hsome .wake (by rw [hwake, hv]; simp)
      obtain ⟨-, i, _, _, hj, -⟩ := h.waiting _ _ hw
      cases hj
  rcases hsound.unheard hverdict with hnil | hnone
  · have hlen := h.length_eq
    rw [hnil] at hlen
    obtain ⟨gate, hw⟩ := hsome .launch (hlaunch (List.length_eq_zero_iff.mp hlen.symm))
    exact ⟨_, hw⟩
  · obtain ⟨i, hi⟩ := List.mem_iff_getElem?.mp hnone
    have hs := h.seated i
    rw [hi] at hs
    unfold Seated at hs
    split at hs
    · by_cases hl : loop.load .launch = 0
      · obtain ⟨gate, hw⟩ := hsome (.turn i) (by omega)
        exact ⟨_, hw⟩
      · obtain ⟨gate, hw⟩ := hsome .launch (by omega)
        exact ⟨_, hw⟩
    · obtain ⟨gate, hw⟩ := hsome (.turn i) (by omega)
      exact ⟨_, hw⟩
    · have hhear : loop.load (.hear i) = 1 := by simpa using hs.2.2
      obtain ⟨gate, hw⟩ := hsome (.hear i) (by omega)
      exact ⟨_, hw⟩
    · simp at hs

end Join

end DepGraph
