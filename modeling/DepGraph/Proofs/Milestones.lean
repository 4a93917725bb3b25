import DepGraph.Proofs.Script
import DepGraph.Proofs.Tally

/-!
# The life of an item

Items that run together are told apart by their numbers. A watched item records that it starts,
whatever its own work records, and how it ends: done, failed, or cancelled while it waits at a
gate.

* `Script.watched` — a script that records its milestones.
* `life` — what the log says of one item, apart from the records of its work.
* `Member.OnCourse.life_eq`, `Member.CutShort.life_eq` — the life of an item that has started: it
  goes on, or has ended once.
-/

set_option autoImplicit false

namespace DepGraph

/-- What is recorded of an item. -/
inductive Milestone (ε : Type) where
  | started
  /-- The work of the item records an event. -/
  | recorded (event : ε)
  | done
  | failed
  | cancelled
  deriving Repr

namespace Milestone

variable {ε φ α : Type}

def isRecord : Milestone ε → Bool
  | recorded _ => true
  | _ => false

def isFailure : Milestone ε → Bool
  | failed => true
  | _ => false

def isCancellation : Milestone ε → Bool
  | cancelled => true
  | _ => false

/-- The last milestone of an item that is left alone. A cancellation that the item raises itself is
a failure. -/
def ofEnding : Ending φ α → Milestone ε
  | .returned _ => done
  | .raised _ => failed
  | .cancelled => failed

@[simp] theorem isRecord_ofEnding (e : Ending φ α) :
    (ofEnding e : Milestone ε).isRecord = false := by
  cases e <;> rfl

@[simp] theorem isCancellation_ofEnding (e : Ending φ α) :
    (ofEnding e : Milestone ε).isCancellation = false := by
  cases e <;> rfl

theorem isFailure_ofEnding {e : Ending φ α} :
    (ofEnding e : Milestone ε).isFailure = true ↔ e.failure? ≠ none := by
  cases e <;> simp [ofEnding, isFailure]

end Milestone

variable {ε φ α : Type} {i : Nat} {s : Script ε φ α} {rest : Script (Nat × Milestone ε) φ α}
  {events : List (Nat × Milestone ε)} {m : Member (Nat × Milestone ε) φ α}

/-! ## Watched scripts -/

namespace Script

/-- The work of item `i`, which records how it ends. -/
def traced (i : Nat) : Script ε φ α → Script (Nat × Milestone ε) φ α
  | finish e => .emit (i, .ofEnding e) (.finish e)
  | emit event rest => .emit (i, .recorded event) (traced i rest)
  | hold gate farewell rest =>
    .hold gate (farewell.map (fun event => (i, .recorded event)) ++ [(i, .cancelled)])
      (traced i rest)

/-- Item `i`, which records that it starts and how it ends. -/
def watched (i : Nat) (s : Script ε φ α) : Script (Nat × Milestone ε) φ α :=
  .emit (i, .started) (s.traced i)

@[simp] theorem ending_traced (i : Nat) (s : Script ε φ α) : (s.traced i).ending = s.ending := by
  induction s with
  | finish e => rfl
  | emit event rest ih => exact ih
  | hold gate farewell rest ih => exact ih

@[simp] theorem ending_watched (i : Nat) (s : Script ε φ α) : (s.watched i).ending = s.ending :=
  ending_traced i s

end Script

/-- What a log says of item `i`, apart from the records of its work. -/
def life (i : Nat) (events : List (Nat × Milestone ε)) : List (Milestone ε) :=
  (events.filter fun p => decide (p.1 = i) && !p.2.isRecord).map (·.2)

/-- The items that a log says were cancelled, in the order in which they were. -/
def cancellations (events : List (Nat × Milestone ε)) : List Nat :=
  (events.filter (·.2.isCancellation)).map (·.1)

/-- The item that a log says failed first. -/
def firstFailure (events : List (Nat × Milestone ε)) : Option Nat :=
  (events.find? (·.2.isFailure)).map (·.1)

@[simp] theorem life_nil (i : Nat) : life i ([] : List (Nat × Milestone ε)) = [] := rfl

theorem life_append (i : Nat) (xs ys : List (Nat × Milestone ε)) :
    life i (xs ++ ys) = life i xs ++ life i ys := by
  simp [life]

theorem life_cons (i : Nat) (p : Nat × Milestone ε) (xs : List (Nat × Milestone ε)) :
    life i (p :: xs) = life i [p] ++ life i xs :=
  life_append i [p] xs

theorem life_own (i : Nat) {milestone : Milestone ε} (h : milestone.isRecord = false) :
    life i [(i, milestone)] = [milestone] := by
  simp [life, h]

@[simp] theorem life_recorded (i j : Nat) (event : ε) : life i [(j, .recorded event)] = [] := by
  simp [life, Milestone.isRecord]

theorem mem_life {milestone : Milestone ε} (h : milestone.isRecord = false) :
    milestone ∈ life i events ↔ (i, milestone) ∈ events := by
  simp [life, h]

theorem cancellations_append (xs ys : List (Nat × Milestone ε)) :
    cancellations (xs ++ ys) = cancellations xs ++ cancellations ys := by
  simp [cancellations]

theorem mem_cancellations : i ∈ cancellations events ↔ (i, .cancelled) ∈ events := by
  simp only [cancellations, List.mem_map, List.mem_filter, Prod.exists]
  constructor
  · rintro ⟨j, milestone, ⟨hmem, hm⟩, rfl⟩
    cases milestone with
    | cancelled => exact hmem
    | started => cases hm
    | recorded event => cases hm
    | done => cases hm
    | failed => cases hm
  · intro h
    exact ⟨i, .cancelled, ⟨h, rfl⟩, rfl⟩

/-- The cancellations of one item alone are those of its life. -/
theorem cancellations_eq (h : ∀ p ∈ events, p.1 = i) :
    cancellations events = ((life i events).filter Milestone.isCancellation).map fun _ => i := by
  induction events with
  | nil => rfl
  | cons p events ih =>
    obtain ⟨j, milestone⟩ := p
    obtain rfl : j = i := h _ List.mem_cons_self
    have hone : cancellations [(j, milestone)] =
        ((life j [(j, milestone)]).filter Milestone.isCancellation).map fun _ => j := by
      cases milestone with
      | recorded event => simp [cancellations, Milestone.isCancellation]
      | _ => rw [life_own j rfl]; rfl
    have htail := ih fun p hp => h p (List.mem_cons_of_mem _ hp)
    rw [← List.singleton_append, cancellations_append, life_append, hone, htail,
      List.filter_append, List.map_append]

/-! ## How far a watched script has come -/

namespace Script

/-- The work of an item goes on, or its end is recorded. -/
theorem Reaches.traced (h : (s.traced i).Reaches events rest) :
    (∀ p ∈ events, p.1 = i) ∧
      ((∃ s' : Script ε φ α, rest = s'.traced i ∧ life i events = []) ∨
        rest = .finish s.ending ∧ life i events = [.ofEnding s.ending]) := by
  induction s generalizing events with
  | finish e =>
    cases h with
    | refl => exact ⟨by simp, .inl ⟨.finish e, rfl, rfl⟩⟩
    | emit _ h =>
      cases h with
      | refl => exact ⟨by simp, .inr ⟨rfl, life_own i (by simp)⟩⟩
  | emit event rest' ih =>
    cases h with
    | refl => exact ⟨by simp, .inl ⟨.emit event rest', rfl, rfl⟩⟩
    | emit _ h =>
      obtain ⟨hown, hcome⟩ := ih h
      refine ⟨by simpa using hown, ?_⟩
      rw [life_cons, life_recorded, List.nil_append]
      exact hcome
  | hold gate farewell rest' ih =>
    cases h with
    | refl => exact ⟨by simp, .inl ⟨.hold gate farewell rest', rfl, rfl⟩⟩
    | hold _ _ h => exact ih h

/-- An item has not started, or its work goes on, or its end is recorded. -/
theorem Reaches.watched (h : (s.watched i).Reaches events rest) :
    (∀ p ∈ events, p.1 = i) ∧
      (events = [] ∧ rest = s.watched i ∨
        (∃ s' : Script ε φ α, rest = s'.traced i ∧ life i events = [.started]) ∨
        rest = .finish s.ending ∧ life i events = [.started, .ofEnding s.ending]) := by
  cases h with
  | refl => exact ⟨by simp, .inl ⟨rfl, rfl⟩⟩
  | emit _ h =>
    obtain ⟨hown, hcome⟩ := Reaches.traced h
    refine ⟨by simpa using hown, .inr ?_⟩
    rw [life_cons, life_own i rfl]
    rcases hcome with ⟨s', hrest, hlife⟩ | ⟨hrest, hlife⟩
    · exact .inl ⟨s', hrest, by simp [hlife]⟩
    · exact .inr ⟨hrest, by simp [hlife]⟩

/-- Cancelled at a gate, an item says so in its last words. -/
theorem Leaves.watched {farewell : List (Nat × Milestone ε)}
    (h : (s.watched i).Leaves events farewell) (hstarted : events ≠ []) :
    (∀ p ∈ farewell, p.1 = i) ∧ life i events = [.started] ∧ life i farewell = [.cancelled] := by
  rcases h with ⟨hnil, -⟩ | ⟨gate, rest, h⟩
  · exact absurd hnil hstarted
  · obtain ⟨-, ⟨hnil, -⟩ | ⟨s', hrest, hlife⟩ | ⟨hrest, -⟩⟩ := h.watched
    · exact absurd hnil hstarted
    · cases s' with
      | finish e => cases hrest
      | emit event s' => cases hrest
      | hold gate' farewell' s' =>
        simp only [traced, Script.hold.injEq] at hrest
        obtain ⟨-, rfl, -⟩ := hrest
        refine ⟨?_, hlife, ?_⟩
        · intro p hp
          rcases List.mem_append.mp hp with hp | hp
          · obtain ⟨event, -, rfl⟩ := List.mem_map.mp hp
            rfl
          · rw [List.mem_singleton.mp hp]
        · have hquiet : life i (farewell'.map fun event => (i, Milestone.recorded event)) = [] := by
            simp [life, Milestone.isRecord]
          rw [life_append, hquiet, life_own i rfl, List.nil_append]
    · cases hrest

end Script

/-! ## Members of a join -/

namespace Member

/-- All that a member has recorded is its own. -/
theorem Follows.own (h : m.Follows (s.watched i) events) : ∀ p ∈ events, p.1 = i := by
  rcases h with h | h
  · cases m with
    | active farewell rest => exact h.1.watched.1
    | stopped farewell => exact absurd h id
    | ended e => exact (Script.Reaches.watched h).1
  · cases m with
    | active farewell rest => exact absurd h id
    | stopped farewell =>
      rcases h with ⟨rfl, -⟩ | ⟨gate, rest, h⟩
      · simp
      · exact h.watched.1
    | ended e =>
      obtain ⟨-, before, farewell, rfl, h⟩ := h
      by_cases hstarted : before = []
      · rcases h with ⟨-, rfl⟩ | ⟨gate, rest, hreaches⟩
        · simp [hstarted]
        · -- The watched script begins with a record, so that a gate comes after it.
          obtain ⟨-, ⟨-, hrest⟩ | ⟨_, _, hlife⟩ | ⟨hrest, _⟩⟩ := hreaches.watched
          · cases hrest
          · simp [hstarted] at hlife
          · cases hrest
      · have hbefore : ∀ p ∈ before, p.1 = i := by
          rcases h with ⟨hnil, -⟩ | ⟨gate, rest, hreaches⟩
          · exact absurd hnil hstarted
          · exact hreaches.watched.1
        have hfarewell := (h.watched hstarted).1
        intro p hp
        exact (List.mem_append.mp hp).elim (hbefore p) (hfarewell p)

/-- Left alone, an item that has started goes on, or has ended by itself. -/
theorem OnCourse.life_eq (h : m.OnCourse (s.watched i) events) (hstarted : events ≠ []) :
    match m with
    | .active _ _ => life i events = [.started]
    | .stopped _ => False
    | .ended e => e = s.ending ∧ life i events = [.started, .ofEnding s.ending] := by
  cases m with
  | active farewell rest =>
    obtain ⟨-, ⟨hnil, -⟩ | ⟨_, _, hlife⟩ | ⟨hrest, hlife⟩⟩ := h.1.watched
    · exact absurd hnil hstarted
    · exact hlife
    · -- At a gate the end is still to be recorded.
      rcases h.2 with ⟨hnil, -⟩ | ⟨gate, rest', hgate⟩
      · exact absurd hnil hstarted
      · exact (Script.Leaves.watched (.inr ⟨gate, rest', hgate⟩) hstarted).2.1
  | stopped farewell => exact h
  | ended e =>
    obtain ⟨-, ⟨-, hrest⟩ | ⟨s', hrest, _⟩ | ⟨hrest, hlife⟩⟩ := Script.Reaches.watched h
    · cases hrest
    · cases s' <;> cases hrest
    · cases hrest
      exact ⟨rfl, hlife⟩

/-- Cancelled, an item that had started says so last. -/
theorem CutShort.life_eq (h : m.CutShort (s.watched i) events) (hstarted : events ≠ []) :
    match m with
    | .active _ _ => False
    | .stopped farewell => life i events = [.started] ∧ (∀ p ∈ farewell, p.1 = i) ∧
        life i farewell = [.cancelled]
    | .ended e => e = .cancelled ∧ life i events = [.started, .cancelled] := by
  cases m with
  | active farewell rest => exact h
  | stopped farewell =>
    obtain ⟨hown, hlife, hlast⟩ := Script.Leaves.watched h hstarted
    exact ⟨hlife, hown, hlast⟩
  | ended e =>
    obtain ⟨rfl, before, farewell, rfl, h⟩ := h
    have hbefore : before ≠ [] := by
      rintro rfl
      rcases h with ⟨-, rfl⟩ | ⟨gate, rest, hreaches⟩
      · exact hstarted rfl
      · obtain ⟨-, ⟨-, hrest⟩ | ⟨_, _, hlife⟩ | ⟨hrest, _⟩⟩ := hreaches.watched
        · cases hrest
        · cases hlife
        · cases hrest
    obtain ⟨-, hlife, hlast⟩ := h.watched hbefore
    exact ⟨rfl, by rw [life_append, hlife, hlast]; rfl⟩

/-- The first turn of an item starts it. -/
theorem OnCourse.started (h : m.OnCourse (s.watched i) events) (isOpen : Gate → Bool) :
    events ++ (Join.turnOf isOpen m).1 ≠ [] := by
  intro hnil
  obtain ⟨rfl, hnew⟩ := List.append_eq_nil_iff.mp hnil
  cases m with
  | active farewell rest =>
    obtain ⟨-, ⟨-, rfl⟩ | ⟨_, _, hlife⟩ | ⟨_, hlife⟩⟩ := h.1.watched
    · simp only [Join.turnOf, Script.watched, Script.advance] at hnew
      split at hnew
      · rename_i hadvance
        cases hnew
        simp at hadvance
      · rename_i hadvance
        cases hnew
        simp at hadvance
    · cases hlife
    · cases hlife
  | stopped farewell => exact h
  | ended e =>
    obtain ⟨-, ⟨-, hrest⟩ | ⟨_, _, hlife⟩ | ⟨_, hlife⟩⟩ := Script.Reaches.watched h
    · cases hrest
    · cases hlife
    · cases hlife

end Member

end DepGraph
