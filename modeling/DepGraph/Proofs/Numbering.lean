import Mathlib.Data.List.Induction
import DepGraph.Proofs.Cells

/-!
# A cell without some of its waiters

Waiters are known by their numbers. Where some are left out, the others move up.

* `Numbering.rank` — the new number of one that stays.
* `Numbering.sift` — a list without the entries at some places.
* `Cell.without` — a cell without some of its waiters: `Cell.without_join`,
  `Cell.without_settleWaiter` and `Cell.without_pending` say what becomes of those who stay.
-/

set_option autoImplicit false

namespace DepGraph

namespace Numbering

variable {α : Type} (gone : List Nat)

/-- How many numbers below `k` stay. -/
def rank (k : Nat) : Nat := (List.range k).countP (· ∉ gone)

/-- A list without the entries whose places are gone. -/
def sift (xs : List α) : List α := (xs.zipIdx.filter fun p => p.2 ∉ gone).map (·.1)

theorem rank_succ (k : Nat) : rank gone (k + 1) = rank gone k + if k ∈ gone then 0 else 1 := by
  unfold rank
  rw [List.range_succ, List.countP_append]
  by_cases h : k ∈ gone <;> simp [h]

variable {gone}

theorem rank_le {i j : Nat} (h : i ≤ j) : rank gone i ≤ rank gone j := by
  obtain ⟨d, rfl⟩ := Nat.exists_eq_add_of_le h
  clear h
  induction d with
  | zero => exact Nat.le_refl _
  | succ d ih =>
    rw [← Nat.add_assoc, rank_succ]
    omega

/-- One that stays comes before all that come later. -/
theorem rank_lt {i j : Nat} (hi : i ∉ gone) (h : i < j) : rank gone i < rank gone j := by
  have hnext := rank_succ gone i
  rw [if_neg hi] at hnext
  have hle : rank gone (i + 1) ≤ rank gone j := rank_le h
  omega

/-- Those who stay keep their order. -/
theorem rank_inj {i j : Nat} (hi : i ∉ gone) (hj : j ∉ gone) (h : rank gone i = rank gone j) :
    i = j := by
  rcases Nat.lt_trichotomy i j with hlt | heq | hgt
  · have := rank_lt hi hlt
    omega
  · exact heq
  · have := rank_lt hj hgt
    omega

theorem sift_concat (xs : List α) (x : α) :
    sift gone (xs ++ [x]) = sift gone xs ++ if xs.length ∈ gone then [] else [x] := by
  unfold sift
  rw [List.zipIdx_append, List.filter_append, List.map_append]
  by_cases h : xs.length ∈ gone <;> simp [h]

theorem length_sift (xs : List α) : (sift gone xs).length = rank gone xs.length := by
  induction xs using List.reverseRec with
  | nil => rfl
  | append_singleton xs x ih =>
    rw [sift_concat, List.length_append, ih, List.length_append, List.length_singleton, rank_succ]
    split <;> rfl

/-- Whoever stays is found under the new number. -/
theorem getElem?_sift (xs : List α) {k : Nat} (hk : k ∉ gone) :
    (sift gone xs)[rank gone k]? = xs[k]? := by
  induction xs using List.reverseRec with
  | nil => rfl
  | append_singleton xs x ih =>
    rw [sift_concat]
    rcases Nat.lt_trichotomy k xs.length with hlt | rfl | hgt
    · have hrank := rank_lt hk hlt
      rw [← length_sift xs] at hrank
      rw [List.getElem?_append_left hrank, List.getElem?_append_left hlt, ih]
    · rw [if_neg hk, ← length_sift xs, List.getElem?_concat_length, List.getElem?_concat_length]
    · have hnone : (xs ++ [x])[k]? = none := by
        simp only [List.getElem?_eq_none_iff, List.length_append, List.length_singleton]
        omega
      rw [hnone, List.getElem?_eq_none_iff, ← sift_concat, length_sift]
      refine rank_le ?_
      simp only [List.length_append, List.length_singleton]
      omega

theorem sift_set_of_mem (xs : List α) {k : Nat} (hk : k ∈ gone) (y : α) :
    sift gone (xs.set k y) = sift gone xs := by
  induction xs using List.reverseRec with
  | nil => rfl
  | append_singleton xs x ih =>
    rcases Nat.lt_or_ge k xs.length with hlt | hge
    · rw [List.set_append_left _ _ hlt, sift_concat, sift_concat, ih, List.length_set]
    · by_cases heq : k = xs.length
      · subst heq
        rw [List.set_append_right _ _ (Nat.le_refl _), Nat.sub_self, List.set_cons_zero,
          sift_concat, sift_concat, if_pos hk, if_pos hk]
      · rw [List.set_eq_of_length_le]
        simp only [List.length_append, List.length_singleton]
        omega

theorem sift_set (xs : List α) {k : Nat} (hk : k ∉ gone) (y : α) :
    sift gone (xs.set k y) = (sift gone xs).set (rank gone k) y := by
  induction xs using List.reverseRec with
  | nil => rfl
  | append_singleton xs x ih =>
    rcases Nat.lt_trichotomy k xs.length with hlt | rfl | hgt
    · have hrank := rank_lt hk hlt
      rw [← length_sift xs] at hrank
      rw [List.set_append_left _ _ hlt, sift_concat, sift_concat, ih, List.length_set,
        List.set_append_left _ _ hrank]
    · have hrank : (sift gone xs).length = rank gone xs.length := length_sift xs
      rw [List.set_append_right _ _ (Nat.le_refl _), Nat.sub_self, List.set_cons_zero, sift_concat,
        sift_concat, if_neg hk, if_neg hk, ← hrank, List.set_append_right _ _ (Nat.le_refl _),
        Nat.sub_self, List.set_cons_zero]
    · have hlen : (xs ++ [x]).length ≤ k := by
        simp only [List.length_append, List.length_singleton]
        omega
      rw [List.set_eq_of_length_le hlen, List.set_eq_of_length_le]
      rw [length_sift]
      exact rank_le hlen

/-- Those who stay, by their new numbers, are all there are. -/
theorem map_rank_range (n : Nat) :
    ((List.range n).filter (· ∉ gone)).map (rank gone) = List.range (rank gone n) := by
  induction n with
  | zero => rfl
  | succ n ih =>
    rw [List.range_succ, List.filter_append, List.map_append, ih, rank_succ]
    by_cases h : n ∈ gone <;> simp [h, List.range_succ]

/-! ## One after the other -/

/-- One more is gone: by his new number he leaves those who stay. -/
theorem rank_cons {k : Nat} (hk : k ∉ gone) (j : Nat) :
    rank [rank gone k] (rank gone j) = rank (k :: gone) j := by
  induction j with
  | zero => rfl
  | succ j ih =>
    rw [rank_succ gone, rank_succ (k :: gone), ← ih]
    by_cases hj : j ∈ gone
    · rw [if_pos hj, if_pos (List.mem_cons_of_mem _ hj), Nat.add_zero, Nat.add_zero]
    · rw [if_neg hj, rank_succ]
      by_cases hjk : j = k
      · subst hjk
        simp
      · have hne : rank gone j ≠ rank gone k := fun h => hjk (rank_inj hj hk h)
        simp [hne, hj, hjk]

theorem sift_cons {k : Nat} (hk : k ∉ gone) (xs : List α) :
    sift [rank gone k] (sift gone xs) = sift (k :: gone) xs := by
  induction xs using List.reverseRec with
  | nil => rfl
  | append_singleton xs x ih =>
    rw [sift_concat, sift_concat, ← ih]
    by_cases hx : xs.length ∈ gone
    · rw [if_pos hx, if_pos (List.mem_cons_of_mem _ hx), List.append_nil, List.append_nil]
    · rw [if_neg hx, sift_concat, length_sift]
      by_cases hxk : xs.length = k
      · simp [hxk]
      · have hne : rank gone xs.length ≠ rank gone k := fun h => hxk (rank_inj hx hk h)
        simp [hne, hx, hxk]

theorem rank_of_mem {k : Nat} (hk : k ∈ gone) : rank (k :: gone) = rank gone := by
  funext j
  refine List.countP_congr fun i _ => ?_
  by_cases hik : i = k <;> simp [hik, hk]

theorem sift_of_mem {k : Nat} (hk : k ∈ gone) (xs : List α) :
    sift (k :: gone) xs = sift gone xs := by
  unfold sift
  congr 1
  refine List.filter_congr fun p _ => ?_
  by_cases hpk : p.2 = k <;> simp [hpk, hk]

/-- Where all who are gone were there, as many are left of as many. -/
theorem length_inj {m n : Nat} (hm : ∀ k ∈ gone, k < m) (hn : ∀ k ∈ gone, k < n)
    (h : rank gone m = rank gone n) : m = n :=
  rank_inj (fun hmem => Nat.lt_irrefl _ (hm _ hmem)) (fun hmem => Nat.lt_irrefl _ (hn _ hmem)) h

end Numbering

namespace Cell

open DepGraph.Numbering

variable {τ φ α : Type} {gone : List Nat}

/-- A cell without the waiters whose numbers are gone. -/
def without (gone : List Nat) (c : Cell τ φ α) : Cell τ φ α :=
  { c with waiters := sift gone c.waiters }

/-- One more is gone. -/
theorem without_cons {k : Nat} (hk : k ∉ gone) (c : Cell τ φ α) :
    (c.without gone).without [rank gone k] = c.without (k :: gone) := by
  simp only [without, sift_cons hk]

theorem without_of_mem {k : Nat} (hk : k ∈ gone) (c : Cell τ φ α) :
    c.without (k :: gone) = c.without gone := by
  simp only [without, sift_of_mem hk]

@[simp] theorem stage_without (c : Cell τ φ α) : (c.without gone).stage = c.stage := rfl

theorem getElem?_without (c : Cell τ φ α) {k : Nat} (hk : k ∉ gone) :
    (c.without gone).waiters[rank gone k]? = c.waiters[k]? := getElem?_sift _ hk

/-- Whoever stays is the same in both. -/
theorem getElem?_of_without {c c' : Cell τ φ α} (h : c.without gone = c'.without gone) {k : Nat}
    (hk : k ∉ gone) : c.waiters[k]? = c'.waiters[k]? := by
  rw [← getElem?_without c hk, h, getElem?_without c' hk]

/-- Two cells agree but for the outcomes of those who are gone. -/
structure Agree (gone : List Nat) (c c' : Cell τ φ α) : Prop where
  stage : c'.stage = c.stage
  length : c'.waiters.length = c.waiters.length
  waiters : ∀ k ∉ gone, c'.waiters[k]? = c.waiters[k]?

/-- Cells that are the same without those who are gone agree, if these were there in both. -/
theorem agree_of_without {c c' : Cell τ φ α} (h : c.without gone = c'.without gone)
    (hc : ∀ k ∈ gone, k < c.waiters.length) (hc' : ∀ k ∈ gone, k < c'.waiters.length) :
    c.Agree gone c' := by
  refine ⟨(congrArg (·.stage) h).symm, ?_, fun k hk => (getElem?_of_without h hk).symm⟩
  refine (length_inj hc hc' ?_).symm
  rw [← length_sift c.waiters, ← length_sift c'.waiters]
  exact congrArg (fun c => c.waiters.length) h

@[simp] theorem without_begun (c : Cell τ φ α) :
    c.begun.without gone = (c.without gone).begun := rfl

@[simp] theorem without_finish (c : Cell τ φ α) (ending : Ending φ α) :
    (c.finish ending).without gone = (c.without gone).finish ending := rfl

/-- One more waiter comes last, unless it is one that is gone. -/
theorem without_join (c : Cell τ φ α) (listener : Option τ) :
    (c.join listener).without gone =
      if c.waiters.length ∈ gone then c.without gone else (c.without gone).join listener := by
  have hjoin : (c.join listener).without gone =
      { c with waiters := sift gone (c.waiters ++ [{ listener, outcome := c.ending? }]) } := rfl
  rw [hjoin, sift_concat]
  split
  · rw [List.append_nil]
    rfl
  · rfl

/-- Whoever stays is settled under the new number. -/
theorem without_settleWaiter (c : Cell τ φ α) {k : Nat} (hk : k ∉ gone) (o : Ending φ α) :
    (c.without gone).settleWaiter (rank gone k) o =
      ((c.settleWaiter k o).1.without gone, (c.settleWaiter k o).2) := by
  unfold settleWaiter
  rw [getElem?_without c hk]
  cases hx : c.waiters[k]? with
  | none => rfl
  | some x =>
    obtain ⟨listener, outcome⟩ := x
    cases outcome with
    | some o' => rfl
    | none => simp [without, sift_set _ hk]

/-- What becomes of one that is gone is of no consequence. -/
theorem without_settleWaiter_of_mem (c : Cell τ φ α) {k : Nat} (hk : k ∈ gone) (o : Ending φ α) :
    (c.settleWaiter k o).1.without gone = c.without gone := by
  unfold settleWaiter
  split
  · simp [without, sift_set_of_mem _ hk]
  · rfl

/-- Those without an outcome are the same. -/
theorem without_pending (c : Cell τ φ α) :
    (c.without gone).pending = (c.pending.filter (· ∉ gone)).map (rank gone) := by
  have hlength : (c.without gone).waiters.length = rank gone c.waiters.length := length_sift _
  have hpending : ∀ k ∈ (List.range c.waiters.length).filter (· ∉ gone),
      ((c.without gone).isPending ∘ rank gone) k = c.isPending k := by
    intro k hk
    have hstays : k ∉ gone := by simpa using (List.mem_filter.mp hk).2
    rw [Function.comp_apply, isPending, isPending, getElem?_without c hstays]
  unfold pending
  rw [hlength, ← map_rank_range, List.filter_map, List.filter_congr hpending, List.filter_filter,
    List.filter_filter]
  simp only [Bool.and_comm]

end Cell

end DepGraph
