import DepGraph.Schedule.Join

/-!
# How far a script has come

A script runs in pieces, from one closed gate to the next. Whatever the gates, the pieces put
together are the script with every gate open: the same events in the same order, and the same
ending.

* `Script.Reaches` — some of a script is done, and this is left.
* `Script.advance_spec` — a piece reaches the end, or a closed gate.
* `Script.holds` — the gates still ahead, which each piece makes fewer.
* `Member.OnCourse`, `Member.CutShort`, `Member.Follows` — where a member of a join stands in its
  script, left alone or cancelled; `Member.Follows.turnOf` takes it on.
-/

set_option autoImplicit false

namespace DepGraph

variable {ε φ α : Type}

namespace Script

/-- Once it has recorded `events`, this is left of a script. -/
inductive Reaches : Script ε φ α → List ε → Script ε φ α → Prop
  | refl (s : Script ε φ α) : Reaches s [] s
  | emit {s rest : Script ε φ α} {events : List ε} (e : ε) (h : Reaches s events rest) :
    Reaches (.emit e s) (e :: events) rest
  | hold {s rest : Script ε φ α} {events : List ε} (gate : Gate) (farewell : List ε)
    (h : Reaches s events rest) : Reaches (.hold gate farewell s) events rest

theorem Reaches.trans {s m rest : Script ε φ α} {before after : List ε} (h : Reaches s before m)
    (h' : Reaches m after rest) : Reaches s (before ++ after) rest := by
  induction h with
  | refl s => exact h'
  | emit e _ ih => exact .emit e (ih h')
  | hold gate farewell _ ih => exact .hold gate farewell (ih h')

/-- What is left ends as the whole does. -/
theorem Reaches.ending_eq {s rest : Script ε φ α} {events : List ε} (h : Reaches s events rest) :
    s.ending = rest.ending := by
  induction h with
  | refl s => rfl
  | emit e _ ih => exact ih
  | hold gate farewell _ ih => exact ih

/-- What was recorded comes first among all that is. -/
theorem Reaches.events_eq {s rest : Script ε φ α} {events : List ε} (h : Reaches s events rest) :
    s.events = events ++ rest.events := by
  induction h with
  | refl s => rfl
  | emit e _ ih => exact congrArg (e :: ·) ih
  | hold gate farewell _ ih => exact ih

/-- The gates ahead of a script. -/
def holds : Script ε φ α → Nat
  | finish _ => 0
  | emit _ rest => holds rest
  | hold _ _ rest => holds rest + 1

/-- **A piece of a script** reaches its end, or a closed gate beyond which fewer gates are left. -/
theorem advance_spec (isOpen : Gate → Bool) (s : Script ε φ α) :
    (∃ events, s.advance isOpen = (events, .ended s.ending) ∧
      Reaches s events (.finish s.ending)) ∨
    ∃ events gate farewell rest, s.advance isOpen = (events, .held gate farewell rest) ∧
      Reaches s events (.hold gate farewell rest) ∧ isOpen gate = false ∧ rest.holds < s.holds := by
  induction s with
  | finish e => exact .inl ⟨[], rfl, .refl _⟩
  | emit e rest ih =>
    rcases ih with ⟨events, h, hr⟩ | ⟨events, gate, farewell, rest', h, hr, hg, hh⟩
    · exact .inl ⟨e :: events, by simp [advance, h, ending], .emit e hr⟩
    · exact .inr ⟨e :: events, gate, farewell, rest', by simp [advance, h], .emit e hr, hg, hh⟩
  | hold gate farewell rest ih =>
    unfold advance
    split
    · rcases ih with ⟨events, h, hr⟩ | ⟨events, gate', farewell', rest', h, hr, hg, hh⟩
      · exact .inl ⟨events, h, .hold gate farewell hr⟩
      · refine .inr ⟨events, gate', farewell', rest', h, .hold gate farewell hr, hg, ?_⟩
        simp only [holds]
        omega
    · rename_i hclosed
      refine .inr ⟨[], gate, farewell, rest, rfl, .refl _, by simpa using hclosed, ?_⟩
      simp only [holds]
      omega

@[simp] theorem ending_holdAll (farewell : List ε) (gates : List Gate) (rest : Script ε φ α) :
    (holdAll farewell gates rest).ending = rest.ending := by
  induction gates with
  | nil => rfl
  | cons gate gates ih => exact ih

@[simp] theorem events_holdAll (farewell : List ε) (gates : List Gate) (rest : Script ε φ α) :
    (holdAll farewell gates rest).events = rest.events := by
  induction gates with
  | nil => rfl
  | cons gate gates ih => exact ih

end Script

/-! ## Members -/

/-- A script that has recorded `events` may be cancelled there, and then records `farewell`. -/
def Script.Leaves (s : Script ε φ α) (events farewell : List ε) : Prop :=
  events = [] ∧ farewell = [] ∨ ∃ gate rest, s.Reaches events (.hold gate farewell rest)

namespace Member

/-- A member that nobody cancelled has recorded `events` of its script. -/
def OnCourse (s : Script ε φ α) (events : List ε) : Member ε φ α → Prop
  | .active farewell rest => s.Reaches events rest ∧ s.Leaves events farewell
  | .stopped _ => False
  | .ended e => s.Reaches events (.finish e)

/-- A member that was cancelled has recorded `events` of its script, its farewell included once it
has ended. -/
def CutShort (s : Script ε φ α) (events : List ε) : Member ε φ α → Prop
  | .active _ _ => False
  | .stopped farewell => s.Leaves events farewell
  | .ended e => e = .cancelled ∧ ∃ before farewell, events = before ++ farewell ∧
      s.Leaves before farewell

/-- Where a member stands in its script, cancelled or not. -/
def Follows (s : Script ε φ α) (events : List ε) (m : Member ε φ α) : Prop :=
  m.OnCourse s events ∨ m.CutShort s events

variable {s : Script ε φ α} {events : List ε} {m : Member ε φ α}

theorem onCourse_first (s : Script ε φ α) : (Member.active [] s).OnCourse s [] :=
  ⟨.refl s, .inl ⟨rfl, rfl⟩⟩

/-- A turn takes a member on in its script. -/
theorem OnCourse.turnOf (h : m.OnCourse s events) (isOpen : Gate → Bool) :
    (Join.turnOf isOpen m).2.1.OnCourse s (events ++ (Join.turnOf isOpen m).1) := by
  cases m with
  | active farewell rest =>
    simp only [Join.turnOf]
    rcases rest.advance_spec isOpen with
      ⟨events', hadvance, hr⟩ | ⟨events', gate, farewell', rest', hadvance, hr, _, _⟩
    · rw [hadvance]
      exact h.1.trans hr
    · rw [hadvance]
      have hgate : s.Reaches (events ++ events') (.hold gate farewell' rest') := h.1.trans hr
      have hbeyond : s.Reaches (events ++ events' ++ []) rest' := hgate.trans (.hold _ _ (.refl _))
      rw [List.append_nil] at hbeyond
      exact ⟨hbeyond, .inr ⟨gate, rest', hgate⟩⟩
  | stopped farewell => exact absurd h id
  | ended e => simpa [Join.turnOf] using h

theorem CutShort.turnOf (h : m.CutShort s events) (isOpen : Gate → Bool) :
    (Join.turnOf isOpen m).2.1.CutShort s (events ++ (Join.turnOf isOpen m).1) := by
  cases m with
  | active farewell rest => exact absurd h id
  | stopped farewell => exact ⟨rfl, events, farewell, rfl, h⟩
  | ended e => simpa [Join.turnOf] using h

theorem Follows.turnOf (h : m.Follows s events) (isOpen : Gate → Bool) :
    (Join.turnOf isOpen m).2.1.Follows s (events ++ (Join.turnOf isOpen m).1) :=
  h.imp (·.turnOf isOpen) (·.turnOf isOpen)

/-- A member that has not ended is cut short where it stands. -/
theorem Follows.stop (h : m.Follows s events) : m.stop.Follows s events := by
  cases m with
  | active farewell rest => exact .inr (h.elim And.right (absurd · id))
  | stopped farewell => exact h
  | ended e => exact h

/-- Left alone, a member ends as its script does. -/
theorem OnCourse.ending_eq {e : Ending φ α} (h : (Member.ended e).OnCourse s events) :
    e = s.ending :=
  (Script.Reaches.ending_eq h).symm

/-- Left alone, a member that has ended has recorded all that its script does. -/
theorem OnCourse.events_eq {e : Ending φ α} (h : (Member.ended e).OnCourse s events) :
    events = s.events := by
  simpa [Script.events] using (Script.Reaches.events_eq h).symm

end Member

end DepGraph
