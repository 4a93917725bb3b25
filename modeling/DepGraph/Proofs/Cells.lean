import Mathlib.Data.List.Basic
import DepGraph.Schedule.Cell
import DepGraph.Proofs.Tally

/-!
# Who waits for a cell

* `Cell.attach_eq` — a cell that was started takes every waiter.
* `Cell.getElem?_settleWaiter` — a waiter has its outcome at most once, and nothing else changes.
* `Cell.Settled` — a waiter has an outcome, which stays so.
* `Cell.Joined` — waiters came at most after those that were there, and nobody's listener changed.
-/

set_option autoImplicit false

namespace DepGraph.Cell

variable {τ φ α : Type}

/-- How the computation ended, once it has. -/
def ending? (c : Cell τ φ α) : Option (Ending φ α) :=
  match c.stage with
  | .ended ending => some ending
  | _ => none

theorem ending?_eq_some {c : Cell τ φ α} {ending : Ending φ α} :
    c.ending? = some ending ↔ c.stage = .ended ending := by
  unfold ending?
  cases c.stage <;> simp

theorem state_eq_unstarted {c : Cell τ φ α} : c.state = .unstarted ↔ c.stage = .unstarted := by
  unfold state
  split <;> simp_all

theorem state_eq_inProgress {c : Cell τ φ α} : c.state = .inProgress ↔ c.stage = .inProgress := by
  unfold state
  split <;> simp_all

theorem state_eq_failed {c : Cell τ φ α} {ending : Ending φ α} (h : c.stage = .ended ending) :
    c.state = .failed ↔ ending.failure? ≠ none := by
  cases ending <;> simp [state, h, Ending.failure?]

theorem ended_of_failed {c : Cell τ φ α} (h : c.state = .failed) :
    ∃ ending, c.stage = .ended ending := by
  cases hs : c.stage with
  | ended ending => exact ⟨ending, rfl⟩
  | unstarted => simp [state, hs] at h
  | inProgress => simp [state, hs] at h

/-- One more waiter, which knows the outcome if there is one. -/
def join (c : Cell τ φ α) (listener : Option τ) : Cell τ φ α :=
  { c with waiters := c.waiters ++ [{ listener, outcome := c.ending? }] }

/-- A cell that was started takes every waiter. -/
theorem attach_eq {c : Cell τ φ α} (h : c.stage ≠ .unstarted) (listener : Option τ) :
    c.attach listener = .ok (c.join listener, c.waiters.length) := by
  unfold attach join ending?
  cases hs : c.stage with
  | unstarted => exact absurd hs h
  | inProgress => simp
  | ended ending => simp

theorem begun_stage_ne (c : Cell τ φ α) : c.begun.stage ≠ .unstarted := by
  simp [begun]

/-! ## Outcomes -/

theorem mem_pending {c : Cell τ φ α} {k : Nat} {x : Waiter τ φ α} (h : c.waiters[k]? = some x)
    (hx : x.outcome = none) : k ∈ c.pending := by
  have hlt : k < c.waiters.length := (List.getElem?_eq_some_iff.mp h).1
  have hpending : c.isPending k = true := by
    rw [isPending, h]
    simp [hx]
  exact List.mem_filter.mpr ⟨List.mem_range.mpr hlt, hpending⟩

@[simp] theorem stage_settleWaiter (c : Cell τ φ α) (w : Nat) (o : Ending φ α) :
    (c.settleWaiter w o).1.stage = c.stage := by
  unfold settleWaiter
  split <;> rfl

theorem isPending_eq {c : Cell τ φ α} {k : Nat} :
    c.isPending k = true ↔ ∃ x, c.waiters[k]? = some x ∧ x.outcome = none := by
  unfold isPending
  cases c.waiters[k]? <;> simp

/-- Whoever has an outcome keeps it. -/
theorem settleWaiter_of_settled {c : Cell τ φ α} {k : Nat} (h : c.isPending k = false)
    (o : Ending φ α) : c.settleWaiter k o = (c, none) := by
  unfold settleWaiter
  split
  · rename_i listener hx
    simp [isPending, hx] at h
  · rfl

theorem settleWaiter_of_pending {c : Cell τ φ α} {k : Nat} {x : Waiter τ φ α}
    (hx : c.waiters[k]? = some x) (hnone : x.outcome = none) (o : Ending φ α) :
    c.settleWaiter k o =
      ({ c with waiters := c.waiters.set k { x with outcome := some o } }, x.listener) := by
  obtain ⟨listener, outcome⟩ := x
  cases hnone
  simp [settleWaiter, hx]

/-- A waiter that has no outcome yet has the given one, and nothing else changes. -/
theorem getElem?_settleWaiter (c : Cell τ φ α) (w : Nat) (o : Ending φ α) (k : Nat) :
    (c.settleWaiter w o).1.waiters[k]? = (c.waiters[k]?).map fun x =>
      if k = w ∧ x.outcome = none then { x with outcome := some o } else x := by
  unfold settleWaiter
  split
  · rename_i listener hw
    by_cases hk : w = k
    · subst hk
      have hlt := (List.getElem?_eq_some_iff.mp hw).1
      simp [hw, List.getElem?_set_self hlt]
    · have hk' : ¬k = w := fun e => hk e.symm
      simp [List.getElem?_set_ne hk, hk']
  · rename_i hw
    cases hx : c.waiters[k]? with
    | none => rfl
    | some x =>
      by_cases hk : k = w ∧ x.outcome = none
      · obtain ⟨rfl, hnone⟩ := hk
        obtain ⟨listener, outcome⟩ := x
        cases hnone
        exact absurd hx (hw listener)
      · simp [hk]

theorem tell_of_ended {c : Cell τ φ α} {ending : Ending φ α} (h : c.stage = .ended ending)
    (k : Nat) : c.tell k = c.settleWaiter k ending := by
  simp [tell, h]

/-- Waiter `k` is there and has an outcome. -/
def Settled (c : Cell τ φ α) (k : Nat) : Prop :=
  ∃ x o, c.waiters[k]? = some x ∧ x.outcome = some o

theorem Settled.join {c : Cell τ φ α} {k : Nat} (h : c.Settled k) (listener : Option τ) :
    (c.join listener).Settled k := by
  obtain ⟨x, o, hx, ho⟩ := h
  have hlt := (List.getElem?_eq_some_iff.mp hx).1
  exact ⟨x, o, (List.getElem?_append_left hlt).trans hx, ho⟩

/-- Whoever has an outcome goes on to have one. -/
theorem Settled.settleWaiter {c : Cell τ φ α} {k : Nat} (h : c.Settled k) (w : Nat)
    (o : Ending φ α) : (c.settleWaiter w o).1.Settled k := by
  obtain ⟨x, o', hx, ho⟩ := h
  refine ⟨x, o', ?_, ho⟩
  rw [getElem?_settleWaiter, hx]
  simp [ho]

/-! ## Listeners -/

/-- Whoever waited still waits at the same place, and has the same listener. -/
def Joined (c c' : Cell τ φ α) : Prop :=
  ∀ (k : Nat) (x : Waiter τ φ α), c.waiters[k]? = some x →
    ∃ x', c'.waiters[k]? = some x' ∧ x'.listener = x.listener

theorem Joined.refl (c : Cell τ φ α) : c.Joined c := fun _ x hx => ⟨x, hx, rfl⟩

theorem Joined.trans {c₁ c₂ c₃ : Cell τ φ α} (h₁ : c₁.Joined c₂) (h₂ : c₂.Joined c₃) :
    c₁.Joined c₃ := by
  intro k x hx
  obtain ⟨y, hy, hxy⟩ := h₁ k x hx
  obtain ⟨z, hz, hyz⟩ := h₂ k y hy
  exact ⟨z, hz, hyz.trans hxy⟩

theorem Joined.length_le {c c' : Cell τ φ α} (h : c.Joined c') :
    c.waiters.length ≤ c'.waiters.length := by
  by_contra hlt
  have hlt' : c'.waiters.length < c.waiters.length := by omega
  obtain ⟨x, hx, -⟩ := h _ _ (List.getElem?_eq_getElem hlt')
  simp at hx

theorem joined_join (c : Cell τ φ α) (listener : Option τ) : c.Joined (c.join listener) := by
  intro k x hx
  have hlt := (List.getElem?_eq_some_iff.mp hx).1
  exact ⟨x, (List.getElem?_append_left hlt).trans hx, rfl⟩

theorem joined_settleWaiter (c : Cell τ φ α) (w : Nat) (o : Ending φ α) :
    c.Joined (c.settleWaiter w o).1 := by
  intro k x hx
  refine ⟨_, by rw [getElem?_settleWaiter, hx]; rfl, ?_⟩
  dsimp only
  split <;> rfl

theorem joined_tell (c : Cell τ φ α) (w : Nat) : c.Joined (c.tell w).1 := by
  unfold tell
  split
  · exact joined_settleWaiter _ _ _
  · exact .refl c

end DepGraph.Cell
