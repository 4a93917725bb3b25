import Mathlib.Logic.Function.Iterate
import DepGraph.Proofs.Selection

/-!
# Runs without their cancellations

In a system jobs are carried out one at a time, and whoever waits may give up. A run in which some
give up is compared with the run in which they do not. There they have to be told in the end, so
that it has jobs which the other lacks; whatever else is done is done in both, in the same order.

* `System.gone` — the waiters that have given up in a run.
* `System.uncancelled` — the run in which they do not give up, action by action.
* `System.Blind` — a system that does not notice whether a waiter has given up: what it does keeps a
  relation between the two runs.
* `System.Blind.after` — which then holds of the two runs after every step.
* `System.Blind.driven` — and so it does where the jobs are carried out until none is due after
  every step, and the cancellations are simply left out.
-/

set_option autoImplicit false

namespace DepGraph

/-! ## Jobs that are left out -/

namespace Loop

variable {J K : Type} {f : J → Option K} {loop : Loop J}

/-- Of the jobs that are due, how many come before the first that `f` picks. -/
def spare (f : J → Option K) (loop : Loop J) : Nat :=
  (loop.ready.takeWhile fun job => (f job).isNone).length

theorem spare_succ {n : Nat} (h : loop.spare f = n + 1) :
    ∃ job loop', loop.next? = some (job, loop') ∧ f job = none ∧
      loop'.select f = loop.select f ∧ loop'.spare f = n := by
  cases hready : loop.ready with
  | nil => simp [spare, hready] at h
  | cons job rest =>
    cases hjob : f job with
    | some k => simp [spare, hready, hjob] at h
    | none =>
      refine ⟨job, { loop with ready := rest }, by simp [next?, hready], hjob, ?_, ?_⟩
      · simp [select, hready, hjob]
      · simpa [spare, hready, hjob] using h

theorem spare_zero (h : loop.spare f = 0) :
    loop.next? = none ∧ (loop.select f).next? = none ∨
      ∃ job loop' k, loop.next? = some (job, loop') ∧ f job = some k ∧
        (loop.select f).next? = some (k, loop'.select f) := by
  cases hready : loop.ready with
  | nil => exact .inl (by simp [next?, select, hready])
  | cons job rest =>
    cases hjob : f job with
    | none => simp [spare, hready, hjob] at h
    | some k =>
      exact .inr ⟨job, { loop with ready := rest }, k, by simp [next?, hready], hjob,
        by simp [next?, select, hready, hjob]⟩

/-- Where no picked job is due, and none but picked jobs come first, nothing is due. -/
theorem idle_of_spare (h : loop.spare f = 0) (hidle : (loop.select f).idle = true) :
    loop.idle = true := by
  rcases spare_zero h with ⟨hnone, -⟩ | ⟨job, loop', k, -, -, hnext⟩
  · cases hready : loop.ready with
    | nil => simp [idle, hready]
    | cons job rest => simp [next?, hready] at hnone
  · obtain hready : (loop.select f).ready = [] := by simpa [idle] using hidle
    simp [next?, hready] at hnext

end Loop

/-! ## Systems -/

/-- A step of a run: something is done, or a waiter gives up. -/
inductive Step (A : Type) where
  | keep (action : A)
  | cancel (waiter : Nat)
  deriving DecidableEq, Repr

/-- What is done in a step that is no cancellation. -/
def Step.kept? {A : Type} : Step A → Option A
  | .keep a => some a
  | .cancel _ => none

/-- A system in which jobs are carried out one at a time and waiters may give up. -/
structure System (S A : Type) where
  apply : S → A → S
  /-- The job that is due first is carried out. -/
  tick : A
  isTick : A → Bool
  giveUp : S → Nat → S
  /-- The waiter is there and has no outcome yet. -/
  isPending : S → Nat → Bool
  /-- Of the jobs that are due, how many come before the first that does not tell one of these
  waiters. -/
  spare : List Nat → S → Nat
  /-- Nothing is due. -/
  idle : S → Bool

namespace System

variable {S A : Type} (sys : System S A)

def step (s : S) : Step A → S
  | .keep a => sys.apply s a
  | .cancel k => sys.giveUp s k

/-- The state after several steps. -/
def after (s : S) (steps : List (Step A)) : S := steps.foldl sys.step s

/-- The state after several actions. -/
def run (s : S) (actions : List A) : S := actions.foldl sys.apply s

/-- The waiters that give up in a run, the last first. -/
def gone : S → List (Step A) → List Nat
  | _, [] => []
  | s, .keep a :: rest => gone (sys.apply s a) rest
  | s, .cancel k :: rest =>
    gone (sys.giveUp s k) rest ++ if sys.isPending s k then [k] else []

/-- What is done in a state where some have not given up, in place of an action in a state where
they have: before a job is carried out, those among them are told whose turn has come. -/
def replay (gone : List Nat) (s s' : S) (a : A) : List A :=
  if sys.isTick a then
    if sys.spare gone s = 0 then List.replicate (sys.spare gone s' + 1) sys.tick else []
  else [a]

/-- A run without its cancellations, from a state where some have not given up either. -/
def uncancelled : List Nat → S → S → List (Step A) → List A
  | _, _, _, [] => []
  | gone, s, s', .keep a :: rest =>
    sys.replay gone s s' a ++
      uncancelled gone (sys.apply s a) (sys.run s' (sys.replay gone s s' a)) rest
  | gone, s, s', .cancel k :: rest =>
    uncancelled (if sys.isPending s k then k :: gone else gone) (sys.giveUp s k) s' rest

/-- Jobs are carried out until none is due. -/
def Drains (s s₁ : S) : Prop :=
  (∃ n, s₁ = (fun s => sys.apply s sys.tick)^[n] s) ∧ sys.idle s₁ = true

/-- A run in which jobs are carried out until none is due after every step. -/
inductive Driven : S → List (Step A) → S → Prop
  | nil (s : S) : Driven s [] s
  | cons {s s₁ s₂ : S} {x : Step A} {rest : List (Step A)} (hdrains : sys.Drains (sys.step s x) s₁)
    (hrest : Driven s₁ rest s₂) : Driven s (x :: rest) s₂

variable {sys} {s s' s₁ s₂ : S} {gone : List Nat} {a : A} {k : Nat}

theorem run_append (s : S) (before rest : List A) :
    sys.run s (before ++ rest) = sys.run (sys.run s before) rest :=
  List.foldl_append

theorem run_replicate (s : S) (n : Nat) :
    sys.run s (List.replicate n sys.tick) = (fun s => sys.apply s sys.tick)^[n] s := by
  induction n generalizing s with
  | zero => rfl
  | succ n ih => exact ih _

theorem after_append (s : S) (before rest : List (Step A)) :
    sys.after s (before ++ rest) = sys.after (sys.after s before) rest :=
  List.foldl_append

theorem after_keep (s : S) (actions : List A) :
    sys.after s (actions.map .keep) = sys.run s actions := by
  induction actions generalizing s with
  | nil => rfl
  | cons a rest ih => exact ih _

/-- Such a run is a run like any other. -/
theorem Driven.after {steps : List (Step A)} (h : sys.Driven s steps s₁) :
    ∃ done, s₁ = sys.after s done := by
  induction h with
  | nil s => exact ⟨[], rfl⟩
  | @cons s _ _ x _ hdrains _ ih =>
    obtain ⟨done, rfl⟩ := ih
    obtain ⟨⟨n, rfl⟩, -⟩ := hdrains
    refine ⟨x :: ((List.replicate n sys.tick).map .keep ++ done), ?_⟩
    change _ = sys.after (sys.step s x) _
    rw [after_append, after_keep, run_replicate]

/-- What has been done so far does not depend on what comes. -/
theorem uncancelled_append (gone : List Nat) (s s' : S) (before rest : List (Step A)) :
    ∃ tail, sys.uncancelled gone s s' (before ++ rest) =
      sys.uncancelled gone s s' before ++ tail := by
  induction before generalizing gone s s' with
  | nil => exact ⟨_, rfl⟩
  | cons x before ih =>
    cases x with
    | keep a =>
      obtain ⟨tail, htail⟩ :=
        ih gone (sys.apply s a) (sys.run s' (sys.replay gone s s' a))
      exact ⟨tail, by rw [List.cons_append, uncancelled, htail, uncancelled, List.append_assoc]⟩
    | cancel k => exact ih _ _ _

/-- Apart from jobs that are carried out, the same is done. -/
theorem filter_uncancelled (htick : sys.isTick sys.tick = true) (gone : List Nat) (s s' : S)
    (steps : List (Step A)) :
    (sys.uncancelled gone s s' steps).filter (fun a => !sys.isTick a) =
      (steps.filterMap Step.kept?).filter fun a => !sys.isTick a := by
  induction steps generalizing gone s s' with
  | nil => rfl
  | cons x rest ih =>
    cases x with
    | keep a =>
      have hreplay : (sys.replay gone s s' a).filter (fun a => !sys.isTick a) =
          [a].filter fun a => !sys.isTick a := by
        unfold replay
        by_cases ha : sys.isTick a = true
        · rw [if_pos ha]
          split <;> simp [ha, htick]
        · rw [if_neg ha]
      rw [uncancelled, List.filter_append, hreplay, ih, ← List.filter_append]
      rfl
    | cancel k => exact ih _ _ _

/-! ## Systems that do not notice -/

/-- A system that does not notice whether a waiter has given up, provided that the waiter was free
to do so. `Same gone s s'` says that the states differ only in that those who are gone have given up
in `s` and not in `s'`. -/
structure Blind (sys : System S A) (free : S → Nat → Prop) (Same : List Nat → S → S → Prop) :
    Prop where
  tick_eq : ∀ {a}, sys.isTick a = true → a = sys.tick
  act : ∀ {gone s s' a}, Same gone s s' → sys.isTick a = false →
    Same gone (sys.apply s a) (sys.apply s' a)
  tick : ∀ {gone s s'}, Same gone s s' → sys.spare gone s = 0 → sys.spare gone s' = 0 →
    Same gone (sys.apply s sys.tick) (sys.apply s' sys.tick)
  left : ∀ {gone s s'}, Same gone s s' → sys.spare gone s ≠ 0 →
    Same gone (sys.apply s sys.tick) s'
  right : ∀ {gone s s' n}, Same gone s s' → sys.spare gone s' = n + 1 →
    Same gone s (sys.apply s' sys.tick) ∧ sys.spare gone (sys.apply s' sys.tick) = n
  giveUp : ∀ {gone s s' k}, Same gone s s' → sys.isPending s k = true → free s k →
    Same (k :: gone) (sys.giveUp s k) s'
  stays : ∀ {s k}, sys.isPending s k = false → sys.giveUp s k = s
  free_of_after : ∀ {gone s s' steps k}, Same gone s s' → free (sys.after s steps) k → free s k
  idle : ∀ {gone s s'}, Same gone s s' → sys.idle s = true → sys.spare gone s' = 0 →
    sys.idle s' = true
  tick_idle : ∀ {s}, sys.idle s = true → sys.apply s sys.tick = s

/-- Cancelling is not noticed by a system: whatever it does is the same in a run and in that run
without its cancellations, up to the outcomes of those who gave up. -/
structure Unnoticed (sys : System S A) (start : S) (free : S → Nat → Prop)
    (Agree : List Nat → S → S → Prop) : Prop where
  /-- The two runs agree after every step, however the steps and the jobs follow each other. -/
  agree : ∀ steps, (∀ k, .cancel k ∈ steps → free (sys.after start steps) k) →
    Agree (sys.gone start steps) (sys.after start steps)
      (sys.run start (sys.uncancelled [] start start steps))
  /-- The run without cancellations does not depend on what is yet to come. -/
  grows : ∀ before rest, sys.uncancelled [] start start before <+:
    sys.uncancelled [] start start (before ++ rest)
  /-- Apart from jobs that are carried out, the same is done in it. -/
  same : ∀ steps, (sys.uncancelled [] start start steps).filter (fun a => !sys.isTick a) =
    (steps.filterMap Step.kept?).filter fun a => !sys.isTick a
  /-- Where jobs are carried out until none is due after every step, the cancellations are simply
  left out. -/
  driven : ∀ steps s, sys.Driven start steps s → (∀ k, .cancel k ∈ steps → free s k) →
    ∃ gone s', sys.Driven start (steps.filter fun x => x.kept?.isSome) s' ∧ Agree gone s s' ∧
      ∀ k ∈ gone, .cancel k ∈ steps

namespace Blind

variable {free : S → Nat → Prop} {Same : List Nat → S → S → Prop}

/-- Those who have not given up are told. -/
theorem tell_spare (h : sys.Blind free Same) (hsame : Same gone s s') :
    Same gone s (sys.run s' (List.replicate (sys.spare gone s') sys.tick)) ∧
      sys.spare gone (sys.run s' (List.replicate (sys.spare gone s') sys.tick)) = 0 := by
  generalize hn : sys.spare gone s' = n
  induction n generalizing s' with
  | zero => exact ⟨hsame, hn⟩
  | succ n ih =>
    obtain ⟨hsame', hn'⟩ := h.right hsame hn
    exact ih hsame' hn'

/-- **One action**, and what is done in its place. -/
theorem replay (h : sys.Blind free Same) (hsame : Same gone s s') (a : A) :
    Same gone (sys.apply s a) (sys.run s' (sys.replay gone s s' a)) := by
  unfold System.replay
  by_cases ha : sys.isTick a = true
  · obtain rfl := h.tick_eq ha
    rw [if_pos ha]
    by_cases hspare : sys.spare gone s = 0
    · obtain ⟨hsame', hnone⟩ := h.tell_spare hsame
      rw [if_pos hspare, List.replicate_succ', run_append]
      exact h.tick hsame' hspare hnone
    · rw [if_neg hspare]
      exact h.left hsame hspare
  · rw [if_neg ha]
    exact h.act hsame (by simpa using ha)

/-- A waiter gives up in one of the runs. -/
theorem cancel (h : sys.Blind free Same) (hsame : Same gone s s') (hfree : free s k) :
    Same (if sys.isPending s k then k :: gone else gone) (sys.giveUp s k) s' := by
  by_cases hk : sys.isPending s k = true
  · rw [if_pos hk]
    exact h.giveUp hsame hk hfree
  · rw [if_neg hk, h.stays (by simpa using hk)]
    exact hsame

/-- **The two runs after every step.** -/
theorem after (h : sys.Blind free Same) (hsame : Same gone s s') {steps : List (Step A)}
    (hfree : ∀ k, .cancel k ∈ steps → free (sys.after s steps) k) :
    Same (sys.gone s steps ++ gone) (sys.after s steps)
      (sys.run s' (sys.uncancelled gone s s' steps)) := by
  induction steps generalizing gone s s' with
  | nil => exact hsame
  | cons x rest ih =>
    have hrest : ∀ k, .cancel k ∈ rest → free (sys.after (sys.step s x) rest) k :=
      fun k hk => hfree k (List.mem_cons_of_mem _ hk)
    cases x with
    | keep a =>
      rw [uncancelled, run_append]
      exact ih (h.replay hsame a) hrest
    | cancel k =>
      have hgone : sys.gone s (.cancel k :: rest) ++ gone = sys.gone (sys.giveUp s k) rest ++
          if sys.isPending s k then k :: gone else gone := by
        rw [System.gone, List.append_assoc]
        split <;> rfl
      rw [hgone]
      exact ih (h.cancel hsame (h.free_of_after hsame (hfree k List.mem_cons_self))) hrest

/-! ## Carrying out jobs until none is due -/

/-- Carried out until none is due, the jobs lead to states that differ as those before. -/
theorem drains (h : sys.Blind free Same) (hsame : Same gone s s') (hdrains : sys.Drains s s₁) :
    ∃ s₁', sys.Drains s' s₁' ∧ Same gone s₁ s₁' := by
  obtain ⟨⟨n, rfl⟩, hidle⟩ := hdrains
  induction n generalizing s s' with
  | zero =>
    obtain ⟨hsame', hnone⟩ := h.tell_spare hsame
    exact ⟨_, ⟨⟨_, run_replicate _ _⟩, h.idle hsame' hidle hnone⟩, hsame'⟩
  | succ n ih =>
    obtain ⟨m, hm⟩ : ∃ m, sys.run s' (sys.replay gone s s' sys.tick) =
        (fun s => sys.apply s sys.tick)^[m] s' := by
      unfold System.replay
      split
      · split
        · exact ⟨_, run_replicate _ _⟩
        · exact ⟨0, rfl⟩
      · exact ⟨1, rfl⟩
    obtain ⟨s₁', ⟨⟨j, hj⟩, hidle'⟩, hsame₁⟩ := ih (h.replay hsame sys.tick) hidle
    refine ⟨s₁', ⟨⟨j + m, ?_⟩, hidle'⟩, hsame₁⟩
    rw [hj, hm, Function.iterate_add_apply]

/-- Nothing is to be carried out where nothing is due. -/
theorem drains_idle (h : sys.Blind free Same) (hidle : sys.idle s = true)
    (hdrains : sys.Drains s s₁) : s₁ = s := by
  obtain ⟨⟨n, rfl⟩, -⟩ := hdrains
  exact Function.iterate_fixed (h.tick_idle hidle) n

/-- **Where the jobs are carried out until none is due after every step**, the run without its
cancellations is that in which they are left out. -/
theorem driven (h : sys.Blind free Same) {steps : List (Step A)} (hdriven : sys.Driven s steps s₁)
    (hsame : Same gone s s') (hidle : sys.idle s' = true)
    (hfree : ∀ k, .cancel k ∈ steps → free s₁ k) :
    ∃ gone₁ s₁', sys.Driven s' (steps.filter fun x => x.kept?.isSome) s₁' ∧ Same gone₁ s₁ s₁' ∧
      sys.idle s₁' = true ∧ ∀ k ∈ gone₁, k ∈ gone ∨ .cancel k ∈ steps := by
  induction hdriven generalizing gone s' with
  | nil s => exact ⟨gone, s', .nil s', hsame, hidle, fun k => .inl⟩
  | @cons s s₁ s₂ x rest hdrains hrest ih =>
    have hlater : ∀ k, .cancel k ∈ rest → free s₂ k :=
      fun k hk => hfree k (List.mem_cons_of_mem _ hk)
    cases x with
    | keep a =>
      obtain ⟨s₁', hdrains', hsame₁⟩ :
          ∃ s₁', sys.Drains (sys.apply s' a) s₁' ∧ Same gone s₁ s₁' := by
        by_cases ha : sys.isTick a = true
        · -- A job more makes no difference where all are to be carried out.
          obtain rfl := h.tick_eq ha
          rw [h.tick_idle hidle]
          obtain ⟨⟨n, hn⟩, hidle₁⟩ := hdrains
          exact h.drains hsame ⟨⟨n + 1, hn⟩, hidle₁⟩
        · exact h.drains (h.act hsame (by simpa using ha)) hdrains
      obtain ⟨gone₁, s₂', hdriven, hsame₂, hidle₂, hgone⟩ := ih hsame₁ hdrains'.2 hlater
      exact ⟨gone₁, s₂', .cons hdrains' hdriven, hsame₂, hidle₂,
        fun k hk => (hgone k hk).imp_right (List.mem_cons_of_mem _)⟩
    | cancel k =>
      have hfreed : free s k := by
        obtain ⟨done, hdone⟩ := (Driven.cons hdrains hrest).after
        exact h.free_of_after hsame (hdone ▸ hfree k List.mem_cons_self)
      obtain ⟨s₁', hdrains', hsame₁⟩ := h.drains (h.cancel hsame hfreed) hdrains
      obtain rfl := h.drains_idle hidle hdrains'
      obtain ⟨gone₁, s₂', hdriven, hsame₂, hidle₂, hgone⟩ := ih hsame₁ hidle hlater
      refine ⟨gone₁, s₂', hdriven, hsame₂, hidle₂, fun j hj => ?_⟩
      rcases hgone j hj with hj | hj
      · split at hj
        · rcases List.mem_cons.mp hj with rfl | hj
          · exact .inr List.mem_cons_self
          · exact .inl hj
        · exact .inl hj
      · exact .inr (List.mem_cons_of_mem _ hj)

/-- A system that does not notice whether a waiter has given up does not notice cancelling. -/
theorem unnoticed (h : sys.Blind free Same) {Agree : List Nat → S → S → Prop}
    (hagree : ∀ gone s s', Same gone s s' → Agree gone s s') (hsame : Same [] s s)
    (hidle : sys.idle s = true) (htick : sys.isTick sys.tick = true) :
    sys.Unnoticed s free Agree where
  agree steps hfree := by
    have hafter := hagree _ _ _ (h.after hsame hfree)
    rwa [List.append_nil] at hafter
  grows before rest := by
    obtain ⟨tail, htail⟩ := sys.uncancelled_append [] s s before rest
    exact ⟨tail, htail.symm⟩
  same steps := filter_uncancelled htick [] s s steps
  driven steps s₁ hdriven hfree := by
    obtain ⟨gone, s', hdriven', hsame', -, hgone⟩ := h.driven hdriven hsame hidle hfree
    exact ⟨gone, s', hdriven', hagree _ _ _ hsame', fun k hk => (hgone k hk).resolve_left (by simp)⟩

end Blind

end System

end DepGraph
