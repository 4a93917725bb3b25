import Mathlib.Data.List.Basic
import DepGraph.Schedule.Tally

/-!
# What a verdict says of the parts

* `Ending.failure?` — the failure of an ending, if it is one, whatever was to be returned.
* `Tally.Sound` — there is no verdict while every part that was heard of returned and some were not
  heard of; a verdict holds the values of all parts, or the failure of one of them.
* `Tally.Sound.hear` — which remains so whatever is heard.
-/

set_option autoImplicit false

namespace DepGraph

variable {φ α β : Type}

namespace Ending

/-- The failure of work that did not return. -/
def failure? : Ending φ α → Option (Ending φ Empty)
  | returned _ => none
  | raised f => some (.raised f)
  | cancelled => some .cancelled

@[simp] theorem failure?_returned (a : α) : (returned a : Ending φ α).failure? = none := rfl

@[simp] theorem failure?_raised (f : φ) : (raised f : Ending φ α).failure? = some (.raised f) := rfl

@[simp] theorem failure?_cancelled : (cancelled : Ending φ α).failure? = some .cancelled := rfl

theorem failure?_eq_none {e : Ending φ α} : e.failure? = none ↔ ∃ a, e = .returned a := by
  cases e <;> simp

theorem isReturned_iff {e : Ending φ α} : e.isReturned = true ↔ e.failure? = none := by
  cases e <;> simp [isReturned]

end Ending

namespace Tally

theorem values?_eq_some {heard : List (Option (Ending φ α))} {values : List α} :
    values? heard = some values ↔ heard = values.map fun a => some (.returned a) := by
  induction heard generalizing values with
  | nil => cases values <;> simp [values?]
  | cons x rest ih =>
    cases values with
    | nil => rcases x with _ | (_ | _ | _) <;> simp [values?]
    | cons a values => rcases x with _ | (_ | _ | _) <;> simp [values?, ih, and_comm]

/-- If no part failed and not all returned, some part was not heard of. -/
theorem unheard_of_values? {heard : List (Option (Ending φ α))} (hv : values? heard = none)
    (hr : ∀ e, some e ∈ heard → e.failure? = none) : none ∈ heard := by
  induction heard with
  | nil => cases hv
  | cons x rest ih =>
    rcases x with _ | (a | f | _)
    · exact List.mem_cons_self
    · have hrest : values? rest = none := by simpa [values?] using hv
      exact List.mem_cons_of_mem _ (ih hrest fun e he => hr e (List.mem_cons_of_mem _ he))
    · cases hr _ List.mem_cons_self
    · cases hr _ List.mem_cons_self

/-- What the verdict says of the parts, and what it says that there is none. -/
structure Sound (t : Tally φ α) : Prop where
  undecided : t.verdict = none → ∀ e, some e ∈ t.heard → e.failure? = none
  unheard : t.verdict = none → t.heard = [] ∨ none ∈ t.heard
  returned : ∀ values, t.verdict = some (.returned values) →
    t.heard = values.map fun a => some (.returned a)
  failed : ∀ e failure, t.verdict = some e → e.failure? = some failure →
    ∃ part, some part ∈ t.heard ∧ part.failure? = some failure

theorem sound_start (n : Nat) : (start n : Tally φ α).Sound := by
  refine ⟨fun _ e he => ?_, fun _ => ?_, fun values h => ?_, fun e failure h => ?_⟩
  · cases List.eq_of_mem_replicate he
  · cases n with
    | zero => exact .inl rfl
    | succ n => exact .inr (by simp [start])
  · cases h
  · cases h

theorem length_hear (t : Tally φ α) (i : Nat) (e : Ending φ α) :
    (t.hear i e).heard.length = t.heard.length := by
  simp [hear]

theorem getElem?_hear (t : Tally φ α) (i j : Nat) (e : Ending φ α) :
    (t.hear i e).heard[j]? =
      if i = j then (t.heard[j]?).map fun _ => some e else t.heard[j]? := by
  by_cases h : i = j
  · subst h
    rw [if_pos rfl]
    exact List.getElem?_set_self'
  · simp [hear, h]

/-- A verdict stands. -/
theorem hear_of_verdict {t : Tally φ α} {v : Ending φ (List α)} (h : t.verdict = some v) (i : Nat)
    (e : Ending φ α) : (t.hear i e).verdict = some v := by
  simp [hear, h]

/-- Hearing of a part that failed brings its failure as the verdict, unless there is one. -/
theorem hear_failure {t : Tally φ α} (h : t.verdict = none) (i : Nat) {e : Ending φ α}
    {failure : Ending φ Empty} (he : e.failure? = some failure) :
    ∃ v, (t.hear i e).verdict = some v ∧ v.failure? = some failure := by
  cases e with
  | returned a => cases he
  | raised f => exact ⟨.raised f, by simp [hear, h, judge], he⟩
  | cancelled => exact ⟨.cancelled, by simp [hear, h, judge], he⟩

/-- A part heard of is a part heard of for good, once each part is heard of once. -/
theorem mem_hear {t : Tally φ α} {i : Nat} (hi : t.heard[i]? = some none) (e : Ending φ α)
    {x : Ending φ α} : some x ∈ (t.hear i e).heard ↔ x = e ∨ some x ∈ t.heard := by
  have hlt : i < t.heard.length := (List.getElem?_eq_some_iff.mp hi).1
  constructor
  · intro hx
    rcases List.mem_or_eq_of_mem_set hx with hx | hx
    · exact .inr hx
    · exact .inl (Option.some.inj hx)
  · rintro (rfl | hx)
    · exact List.mem_set hlt _
    · obtain ⟨j, hj⟩ := List.mem_iff_getElem?.mp hx
      have hij : i ≠ j := by
        rintro rfl
        rw [hi] at hj
        cases hj
      refine List.mem_iff_getElem?.mpr ⟨j, ?_⟩
      rw [getElem?_hear, if_neg hij, hj]

/-- **A verdict remains sound** when one more part is heard of. -/
theorem Sound.hear {t : Tally φ α} (ht : t.Sound) {i : Nat} (hi : t.heard[i]? = some none)
    (e : Ending φ α) : (t.hear i e).Sound := by
  cases hv : t.verdict with
  | some v =>
    have hstands := hear_of_verdict hv i e
    refine ⟨fun h => ?_, fun h => ?_, fun values h => ?_, fun e' failure h hf => ?_⟩
    · rw [hstands] at h
      cases h
    · rw [hstands] at h
      cases h
    · -- All parts were heard of, so that part `i` was.
      have hall := ht.returned values (hv.trans (hstands.symm.trans h))
      rw [hall] at hi
      simp at hi
    · obtain ⟨part, hpart, hfail⟩ := ht.failed e' failure (hv.trans (hstands.symm.trans h)) hf
      exact ⟨part, (mem_hear hi e).mpr (.inr hpart), hfail⟩
  | none =>
    have hjudge : (t.hear i e).verdict = judge (t.hear i e).heard e := by
      simp [Tally.hear, hv]
    cases he : e.failure? with
    | some failure =>
      obtain ⟨v, hstands, hfail⟩ := hear_failure hv i he
      refine ⟨fun h => ?_, fun h => ?_, fun values h => ?_, fun e' failure' h hf => ?_⟩
      · rw [hstands] at h
        cases h
      · rw [hstands] at h
        cases h
      · rw [hstands] at h
        cases h
        cases hfail
      · obtain rfl := Option.some.inj (hstands.symm.trans h)
        exact ⟨e, (mem_hear hi e).mpr (.inl rfl), he.trans (hfail.symm.trans hf)⟩
    | none =>
      obtain ⟨a, rfl⟩ := Ending.failure?_eq_none.mp he
      have hreturned : ∀ x, some x ∈ (t.hear i (.returned a)).heard → x.failure? = none := by
        intro x hx
        rcases (mem_hear hi _).mp hx with rfl | hx
        · rfl
        · exact ht.undecided hv x hx
      have hjudge' : (t.hear i (.returned a)).verdict =
          (values? (t.hear i (.returned a)).heard).map .returned := hjudge
      cases hvalues : values? (t.hear i (.returned a)).heard with
      | none =>
        rw [hvalues] at hjudge'
        refine ⟨fun _ => hreturned, fun _ => .inr (unheard_of_values? hvalues hreturned),
          fun values h => ?_, fun e' failure h => ?_⟩
        · rw [hjudge'] at h
          cases h
        · rw [hjudge'] at h
          cases h
      | some values =>
        rw [hvalues] at hjudge'
        refine ⟨fun h => ?_, fun h => ?_, fun values' h => ?_, fun e' failure h hf => ?_⟩
        · rw [hjudge'] at h
          cases h
        · rw [hjudge'] at h
          cases h
        · rw [hjudge'] at h
          cases h
          exact values?_eq_some.mp hvalues
        · rw [hjudge'] at h
          cases h
          cases hf

end Tally

end DepGraph
