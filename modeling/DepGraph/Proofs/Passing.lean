import DepGraph.Proofs.Course
import DepGraph.Proofs.Inquiries

/-!
# Which gates a script has passed

A script passes a gate only once it is open, and gates stay open. So whatever a script has come
past has been answered by now.

* `Script.Passes` — how far a script has come, by way of open gates alone.
* `Member.Passed` — a member of a join has passed open gates alone; it waits at most for the last.
* `Join.Passing` — so have all members: `Join.Passing.perform`, `Join.Passing.release` and
  `Join.Passing.stop` say that this stays so.
* `Inquiry.answered_of_passes` — a call that an inquiry has come past was answered.
-/

set_option autoImplicit false

namespace DepGraph

variable {ε φ α : Type}

/-- What is left of a script where it pauses. -/
def Pause.script : Pause ε φ α → Script ε φ α
  | .ended e => .finish e
  | .held gate farewell rest => .hold gate farewell rest

namespace Script

/-- Once it has recorded `events`, this is left of a script, and all gates before are open. -/
inductive Passes (isOpen : Gate → Bool) : Script ε φ α → List ε → Script ε φ α → Prop
  | refl (s : Script ε φ α) : Passes isOpen s [] s
  | emit {s rest : Script ε φ α} {events : List ε} (e : ε) (h : Passes isOpen s events rest) :
    Passes isOpen (.emit e s) (e :: events) rest
  | hold {s rest : Script ε φ α} {events : List ε} (gate : Gate) (farewell : List ε)
    (hopen : isOpen gate = true) (h : Passes isOpen s events rest) :
    Passes isOpen (.hold gate farewell s) events rest

/-- A script that has recorded `events` may be cancelled there, and then records `farewell`; all
gates before are open. -/
def Halts (isOpen : Gate → Bool) (s : Script ε φ α) (events farewell : List ε) : Prop :=
  events = [] ∧ farewell = [] ∨ ∃ gate rest, s.Passes isOpen events (.hold gate farewell rest)

variable {isOpen isOpen' : Gate → Bool} {s rest : Script ε φ α} {events farewell : List ε}

theorem Passes.trans {m : Script ε φ α} {after : List ε} (h : s.Passes isOpen events m)
    (h' : m.Passes isOpen after rest) : s.Passes isOpen (events ++ after) rest := by
  induction h with
  | refl s => exact h'
  | emit e _ ih => exact .emit e (ih h')
  | hold gate farewell hopen _ ih => exact .hold gate farewell hopen (ih h')

theorem Passes.mono (h : s.Passes isOpen events rest)
    (hopen : ∀ gate, isOpen gate = true → isOpen' gate = true) : s.Passes isOpen' events rest := by
  induction h with
  | refl s => exact .refl s
  | emit e _ ih => exact .emit e ih
  | hold gate farewell hgate _ ih => exact .hold gate farewell (hopen gate hgate) ih

theorem Passes.reaches (h : s.Passes isOpen events rest) : s.Reaches events rest := by
  induction h with
  | refl s => exact .refl s
  | emit e _ ih => exact .emit e ih
  | hold gate farewell _ _ ih => exact .hold gate farewell ih

theorem Halts.mono (h : s.Halts isOpen events farewell)
    (hopen : ∀ gate, isOpen gate = true → isOpen' gate = true) : s.Halts isOpen' events farewell :=
  h.imp_right fun ⟨gate, rest, h⟩ => ⟨gate, rest, h.mono hopen⟩

theorem Halts.leaves (h : s.Halts isOpen events farewell) : s.Leaves events farewell :=
  h.imp_right fun ⟨gate, rest, h⟩ => ⟨gate, rest, h.reaches⟩

/-- A piece of a script passes open gates alone. -/
theorem advance_passes (isOpen : Gate → Bool) (s : Script ε φ α) :
    s.Passes isOpen (s.advance isOpen).1 (s.advance isOpen).2.script := by
  induction s with
  | finish e => exact .refl _
  | emit e rest ih => exact .emit e ih
  | hold gate farewell rest ih =>
    unfold advance
    split
    · rename_i hopen
      exact .hold gate farewell hopen ih
    · exact .refl _

/-- Gates that several calls wait for are passed one after the other. -/
theorem passes_holdAll {gates : List Gate}
    (h : (holdAll farewell gates s).Passes isOpen events rest) :
    (∀ gate ∈ gates, isOpen gate = true) ∧ s.Passes isOpen events rest ∨
      events = [] ∧ ∃ gate later, rest = .hold gate farewell later := by
  induction gates with
  | nil => exact .inl ⟨by simp, h⟩
  | cons gate gates ih =>
    cases h with
    | refl => exact .inr ⟨rfl, gate, _, rfl⟩
    | hold _ _ hopen h =>
      rcases ih h with ⟨hgates, h⟩ | h
      · exact .inl ⟨by simpa using ⟨hopen, hgates⟩, h⟩
      · exact .inr h

end Script

/-! ## Members -/

/-- Member `i` has come past open gates alone. If it is to go on, its gate is open, or it waits
there. -/
def Member.Passed (loop : Loop JoinJob) (i : Nat) (s : Script ε φ α) (events : List ε) :
    Member ε φ α → Prop
  | .active farewell rest => events = [] ∧ farewell = [] ∧ rest = s ∨
      ∃ gate, s.Passes loop.isOpen events (.hold gate farewell rest) ∧
        ((gate, .turn i) ∈ loop.waiting ∨ loop.isOpen gate = true)
  | .stopped farewell => s.Halts loop.isOpen events farewell
  | .ended e => s.Passes loop.isOpen events (.finish e) ∨
      e = .cancelled ∧ ∃ before farewell, events = before ++ farewell ∧
        s.Halts loop.isOpen before farewell

namespace Member

variable {loop loop' : Loop JoinJob} {i : Nat} {s : Script ε φ α} {events : List ε}
  {m : Member ε φ α}

theorem Passed.mono (h : m.Passed loop i s events)
    (hopen : ∀ gate, loop.isOpen gate = true → loop'.isOpen gate = true)
    (hwaiting : ∀ gate, (gate, .turn i) ∈ loop.waiting →
      (gate, .turn i) ∈ loop'.waiting ∨ loop'.isOpen gate = true) : m.Passed loop' i s events := by
  cases m with
  | active farewell rest =>
    refine h.imp_right fun ⟨gate, h, hgate⟩ => ⟨gate, h.mono hopen, ?_⟩
    exact hgate.elim (hwaiting gate) fun hgate => .inr (hopen gate hgate)
  | stopped farewell => exact Script.Halts.mono h hopen
  | ended e =>
    refine h.imp (·.mono hopen) fun ⟨he, before, farewell, hevents, h⟩ =>
      ⟨he, before, farewell, hevents, h.mono hopen⟩

/-- Whoever has passed gates stands where its script has come to. -/
theorem Passed.follows (h : m.Passed loop i s events) : m.Follows s events := by
  cases m with
  | active farewell rest =>
    rcases h with ⟨rfl, rfl, rfl⟩ | ⟨gate, h, -⟩
    · exact .inl (onCourse_first rest)
    · refine .inl ⟨?_, .inr ⟨gate, rest, h.reaches⟩⟩
      have := h.reaches.trans (.hold gate farewell (.refl rest))
      rwa [List.append_nil] at this
  | stopped farewell => exact .inr h.leaves
  | ended e =>
    exact h.imp Script.Passes.reaches fun ⟨he, before, farewell, hevents, h⟩ =>
      ⟨he, before, farewell, hevents, h.leaves⟩

/-- Whoever is to go on and does not wait has passed all gates so far. -/
theorem Passed.reached {farewell : List ε} {rest : Script ε φ α}
    (h : (Member.active farewell rest).Passed loop i s events)
    (hnowait : ∀ gate, (gate, .turn i) ∉ loop.waiting) : s.Passes loop.isOpen events rest := by
  rcases h with ⟨rfl, rfl, rfl⟩ | ⟨gate, h, hgate⟩
  · exact .refl rest
  · have hopen := hgate.resolve_left (hnowait gate)
    have hbeyond := h.trans (.hold gate farewell hopen (.refl rest))
    rwa [List.append_nil] at hbeyond

/-- A turn passes open gates alone, and leaves a member waiting for the next. -/
theorem Passed.turnOf (h : m.Passed loop i s events)
    (hnowait : ∀ gate, (gate, .turn i) ∉ loop.waiting)
    (hopen : loop'.isOpen = loop.isOpen)
    (hpark : ∀ gate, (Join.turnOf loop.isOpen m).2.2 = .at gate →
      (gate, .turn i) ∈ loop'.waiting) :
    (Join.turnOf loop.isOpen m).2.1.Passed loop' i s
      (events ++ (Join.turnOf loop.isOpen m).1) := by
  cases m with
  | active farewell rest =>
    have hpiece := (h.reached hnowait).trans (rest.advance_passes loop.isOpen)
    cases hadvance : rest.advance loop.isOpen with
    | mk new pause =>
      rw [hadvance, ← hopen] at hpiece
      simp only [Join.turnOf, hadvance] at hpark ⊢
      cases pause with
      | ended e => exact .inl hpiece
      | held gate farewell' rest' => exact .inr ⟨gate, hpiece, .inl (hpark gate rfl)⟩
  | stopped farewell =>
    have h' : s.Halts loop'.isOpen events farewell := hopen ▸ h
    exact .inr ⟨rfl, events, farewell, rfl, h'⟩
  | ended e =>
    refine h.mono (fun gate hgate => hopen ▸ hgate) (fun gate hmem => absurd hmem (hnowait gate))
      |> fun h => ?_
    simpa [Join.turnOf] using h

/-- Whoever is cancelled stands where it stood. -/
theorem Passed.stop (h : m.Passed loop i s events) (hopen : loop'.isOpen = loop.isOpen) :
    m.stop.Passed loop' i s events := by
  cases m with
  | active farewell rest =>
    rcases h with ⟨rfl, rfl, -⟩ | ⟨gate, h, -⟩
    · exact .inl ⟨rfl, rfl⟩
    · exact .inr ⟨gate, rest, hopen ▸ h⟩
  | stopped farewell =>
    have h' : s.Halts loop'.isOpen events farewell := hopen ▸ h
    exact h'
  | ended e =>
    refine h.imp (fun h => hopen ▸ h) fun ⟨he, before, farewell, hevents, h⟩ =>
      ⟨he, before, farewell, hevents, hopen ▸ h⟩

end Member

/-! ## Joins -/

namespace Join

/-- All members have come past open gates alone, and nobody else has recorded anything. -/
structure Passing (scripts : List (Script ε φ α)) (events : Nat → List ε) (loop : Loop JoinJob)
    (join : Join ε φ α) : Prop where
  length : join.members.length = scripts.length
  beyond : ∀ i, scripts[i]? = none → events i = []
  each : ∀ (i : Nat) (s : Script ε φ α), scripts[i]? = some s → ∃ m : Member ε φ α,
    join.members[i]? = some m ∧ m.Passed loop i s (events i)

variable {scripts : List (Script ε φ α)} {events : Nat → List ε} {loop loop' : Loop JoinJob}
  {join : Join ε φ α} {job : JoinJob}

theorem passing_ofScripts (scripts : List (Script ε φ α)) (loop : Loop JoinJob) :
    Passing scripts (fun _ => []) loop (ofScripts scripts) := by
  refine ⟨by simp [ofScripts], fun _ _ => rfl,
    fun i s hs => ⟨.active [] s, ?_, .inl ⟨rfl, rfl, rfl⟩⟩⟩
  simp [ofScripts, hs]

namespace Passing

theorem along (h : Passing scripts events loop join) :
    Along Member.Follows scripts events join := by
  refine ⟨h.length, fun i s hs => ?_⟩
  obtain ⟨m, hm, hpassed⟩ := h.each i s hs
  exact ⟨m, hm, hpassed.follows⟩

theorem mono (h : Passing scripts events loop join)
    (hopen : ∀ gate, loop.isOpen gate = true → loop'.isOpen gate = true)
    (hwaiting : ∀ gate i, (gate, .turn i) ∈ loop.waiting →
      (gate, .turn i) ∈ loop'.waiting ∨ loop'.isOpen gate = true) :
    Passing scripts events loop' join := by
  refine ⟨h.length, h.beyond, fun i s hs => ?_⟩
  obtain ⟨m, hm, hpassed⟩ := h.each i s hs
  exact ⟨m, hm, hpassed.mono hopen fun gate => hwaiting gate i⟩

/-- Opening a gate lets those who wait there go on. -/
theorem release (h : Passing scripts events loop join) (gate : Gate) :
    Passing scripts events (loop.release gate) join := by
  refine h.mono (fun other hopen => ?_) fun other i hmem => ?_
  · rw [Loop.isOpen_release, hopen, Bool.true_or]
  · by_cases hgate : other = gate
    · exact .inr (by simp [Loop.isOpen_release, hgate])
    · exact .inl (List.mem_filter.mpr ⟨hmem, by simpa using hgate⟩)

/-- Cancelled, members stay where they are. -/
theorem stop (h : Passing scripts events loop join) (hopen : loop'.isOpen = loop.isOpen) :
    Passing scripts events loop' join.stop := by
  refine ⟨by simpa [Join.stop] using h.length, h.beyond, fun i s hs => ?_⟩
  obtain ⟨m, hm, hpassed⟩ := h.each i s hs
  exact ⟨m.stop, by simp [Join.stop, hm], hpassed.stop hopen⟩

/-- Where nobody goes on, nobody's gate matters. -/
theorem resting (h : Passing scripts events loop join) (hrest : join.Resting)
    (hopen : loop'.isOpen = loop.isOpen) : Passing scripts events loop' join := by
  refine ⟨h.length, h.beyond, fun i s hs => ?_⟩
  obtain ⟨m, hm, hpassed⟩ := h.each i s hs
  refine ⟨m, hm, ?_⟩
  have hstop : m.stop = m := by
    cases m with
    | active farewell rest => exact absurd hm (hrest i farewell rest)
    | stopped farewell => rfl
    | ended e => rfl
  rw [← hstop]
  exact hpassed.stop hopen

/-- **Jobs pass open gates alone.** -/
theorem perform (h : Passing scripts events loop join) (ha : Accounts loop join)
    (hnext : loop.next? = some (job, loop')) :
    Passing scripts (noted job (join.perform id loop' job).1 events)
      (join.perform id loop' job).2.1 (join.perform id loop' job).2.2 := by
  obtain ⟨hwaiting, hopened, -⟩ := Loop.waiting_next? hnext
  have hsame : (∀ gate, loop.isOpen gate = true → loop'.isOpen gate = true) ∧
      ∀ gate i, (gate, .turn i) ∈ loop.waiting →
        (gate, .turn i) ∈ loop'.waiting ∨ loop'.isOpen gate = true := by
    simp only [Loop.isOpen, hopened, hwaiting]
    exact ⟨fun _ => id, fun _ _ => .inl⟩
  have hnot : (∀ i, job ≠ .turn i) → ∀ new : List ε, noted job new events = events :=
    fun hjob new => funext fun i => if_neg (hjob i)
  cases job with
  | launch =>
    rw [hnot (by simp)]
    exact h.mono hsame.1 hsame.2
  | wake =>
    rw [hnot (by simp)]
    exact h.mono hsame.1 hsame.2
  | hear i =>
    rw [hnot (by simp)]
    obtain ⟨e, hm, -⟩ := ha.hear_ended (Loop.load_pos_of_next? hnext)
    rw [Join.perform_hear loop' hm]
    have hafter : Passing scripts events
        (if join.tally.decides i e then loop'.post .wake else loop') join := by
      split
      · exact h.mono hsame.1 hsame.2
      · exact h.mono hsame.1 hsame.2
    exact ⟨hafter.length, hafter.beyond, hafter.each⟩
  | turn i =>
    obtain ⟨⟨m, hm, -⟩, -, hone, -⟩ := ha.turn_running (Loop.load_pos_of_next? hnext)
    have hlt : i < join.members.length := (List.getElem?_eq_some_iff.mp hm).1
    -- Its turn is due, so that it does not wait.
    have hnowait : ∀ gate, (gate, .turn i) ∉ loop.waiting := Loop.notMem_waiting hone hnext
    have hopen' : loop'.isOpen = loop.isOpen := by
      funext gate
      rw [Loop.isOpen, hopened, Loop.isOpen]
    have hturn := turn_eq loop.isOpen hm
    have hevents : (join.perform id loop' (.turn i)).1 = (turnOf loop.isOpen m).1 := by
      simp only [Join.perform, hopen', hturn]
    have hmembers : (join.perform id loop' (.turn i)).2.2.members =
        join.members.set i (turnOf loop.isOpen m).2.1 := by
      simp only [Join.perform, hopen', hturn]
    have hopen : (join.perform id loop' (.turn i)).2.1.isOpen = loop.isOpen := by
      rw [← hopen']
      simp only [Join.perform]
      split <;> rfl
    have hstays : ∀ gate k, (gate, .turn k) ∈ loop.waiting →
        (gate, .turn k) ∈ (join.perform id loop' (.turn i)).2.1.waiting := by
      intro gate k hmem
      rw [← hwaiting] at hmem
      simp only [Join.perform]
      split
      · exact List.mem_append_left _ hmem
      · exact hmem
      · exact hmem
    refine ⟨by simpa [hmembers] using h.length, fun k hk => ?_, fun k s hs => ?_⟩
    · have hik : i ≠ k := by
        rintro rfl
        rw [h.length] at hlt
        simp [hlt] at hk
      rw [noted, if_neg (by simpa using hik)]
      exact h.beyond k hk
    obtain ⟨mk, hmk, hpassed⟩ := h.each k s hs
    by_cases hik : i = k
    · subst hik
      obtain rfl := Option.some.inj (hm.symm.trans hmk)
      refine ⟨(turnOf loop.isOpen m).2.1, hmembers ▸ List.getElem?_set_self hlt, ?_⟩
      rw [noted, if_pos rfl, hevents]
      refine hpassed.turnOf hnowait hopen fun gate hgate => ?_
      simp [Join.perform, hopen', hturn, hgate, Loop.park]
    · refine ⟨mk, by simpa [hmembers, hik] using hmk, ?_⟩
      rw [noted, if_neg (by simpa using hik)]
      exact hpassed.mono (fun gate hgate => hopen ▸ hgate) fun gate hmem =>
        .inl (hstays gate k hmem)

end Passing

end Join

/-! ## Inquiries -/

/-- The gates that the answer to a call waits for. -/
def Environment.gatesOf (env : Environment) (caller : Caller) : Call → List Gate
  | .address specifier origin => (env.address caller specifier origin).gates
  | .descriptor address => (env.descriptor caller address).gates
  | .source _ => []

namespace Inquiry

variable (env : Environment) (id : FileId) (occurrence : Nat) {isOpen : Gate → Bool}
  {events : List Event} {rest : Script Event Fault α}

/-- What has been recorded of a call: it waits for its answer, or the work has gone on with it. -/
theorem passes_callScript {γ : Type} {caller : Caller} {call : Call} {reply : Reply γ}
    {wrap : Cause → Fault} {next : γ → Script Event Fault α}
    (h : (callScript caller call reply wrap next).Passes isOpen events rest) :
    events = [] ∧ rest = callScript caller call reply wrap next ∨
    events = [.called caller call] ∧ (∃ gate later,
      rest = .hold gate [.cancelled caller call] later) ∨
    ∃ later, events = .called caller call :: later ∧ (∀ gate ∈ reply.gates, isOpen gate = true) ∧
      ((∃ a, reply.outcome = .returned a ∧ (next a).Passes isOpen later rest) ∨
        later = [] ∧ ∃ e, rest = .finish e) := by
  cases h with
  | refl => exact .inl ⟨rfl, rfl⟩
  | emit _ h =>
    rcases Script.passes_holdAll h with ⟨hgates, h⟩ | ⟨rfl, hrest⟩
    · refine .inr (.inr ⟨_, rfl, hgates, ?_⟩)
      cases hr : reply.outcome with
      | returned a =>
        rw [hr] at h
        exact .inl ⟨a, rfl, h⟩
      | raised cause =>
        rw [hr] at h
        cases h
        exact .inr ⟨rfl, _, rfl⟩
      | cancelled =>
        rw [hr] at h
        cases h
        exact .inr ⟨rfl, _, rfl⟩
    · exact .inr (.inl ⟨rfl, hrest⟩)

/-- **A call that was made** was answered, all gates that its answer waits for being open, or the
work waits for its answer. -/
theorem answered_of_passes {stage : Nat} {q : Inquiry α} {caller : Caller} {call : Call}
    (h : (q.script env id occurrence stage).Passes isOpen events rest)
    (hcalled : .called caller call ∈ events) :
    (∀ gate ∈ env.gatesOf caller call, isOpen gate = true) ∨
      ∃ gate later, rest = .hold gate [.cancelled caller call] later := by
  induction q generalizing stage events with
  | answer a =>
    cases h
    cases hcalled
  | fault f =>
    cases h
    cases hcalled
  | address specifier next ih =>
    rcases passes_callScript h with ⟨rfl, -⟩ | ⟨rfl, hrest⟩ | ⟨later, rfl, hgates, hlater⟩
    · cases hcalled
    · cases List.mem_singleton.mp hcalled
      exact .inr hrest
    · rcases List.mem_cons.mp hcalled with heq | hcalled
      · cases heq
        exact .inl hgates
      · rcases hlater with ⟨a, -, h⟩ | ⟨rfl, -⟩
        · exact ih a h hcalled
        · cases hcalled
  | descriptor a specifier next ih =>
    rcases passes_callScript h with ⟨rfl, -⟩ | ⟨rfl, hrest⟩ | ⟨later, rfl, hgates, hlater⟩
    · cases hcalled
    · cases List.mem_singleton.mp hcalled
      exact .inr hrest
    · rcases List.mem_cons.mp hcalled with heq | hcalled
      · cases heq
        exact .inl hgates
      · rcases hlater with ⟨d, -, h⟩ | ⟨rfl, -⟩
        · exact ih d h hcalled
        · cases hcalled
  | note n next ih =>
    cases h with
    | refl => cases hcalled
    | emit _ h => exact ih h (by simpa using hcalled)

/-- An inquiry that waits, waits for the answer to a call; cancelled there, it says that the call
was. -/
theorem farewell_of_passes {stage : Nat} {q : Inquiry α} {gate : Gate} {farewell : List Event}
    {later : Script Event Fault α}
    (h : (q.script env id occurrence stage).Passes isOpen events (.hold gate farewell later)) :
    ∃ caller call, farewell = [.cancelled caller call] := by
  induction q generalizing stage events with
  | answer a => cases h
  | fault f => cases h
  | address specifier next ih =>
    rcases passes_callScript h with ⟨-, hrest⟩ | ⟨-, gate', later', hrest⟩ | ⟨_, -, -, hlater⟩
    · cases hrest
    · cases hrest
      exact ⟨_, _, rfl⟩
    · rcases hlater with ⟨a, -, h⟩ | ⟨-, e, hrest⟩
      · exact ih a h
      · cases hrest
  | descriptor a specifier next ih =>
    rcases passes_callScript h with ⟨-, hrest⟩ | ⟨-, gate', later', hrest⟩ | ⟨_, -, -, hlater⟩
    · cases hrest
    · cases hrest
      exact ⟨_, _, rfl⟩
    · rcases hlater with ⟨d, -, h⟩ | ⟨-, e, hrest⟩
      · exact ih d h
      · cases hrest
  | note n next ih =>
    cases h with
    | emit _ h => exact ih h

/-- Cancelled, an inquiry makes no call in its last words. -/
theorem called_notMem_farewell {stage : Nat} {q : Inquiry α} {farewell : List Event}
    (h : (q.script env id occurrence stage).Halts isOpen events farewell) (caller : Caller)
    (call : Call) : .called caller call ∉ farewell := by
  rcases h with ⟨-, rfl⟩ | ⟨gate, later, h⟩
  · simp
  · obtain ⟨caller', call', rfl⟩ := farewell_of_passes env id occurrence h
    simp

/-- **A call of an inquiry that has ended** was answered, or it was cancelled. -/
theorem answered_or_cancelled {stage : Nat} {q : Inquiry α} {loop : Loop JoinJob} {i : Nat}
    {e : Ending Fault α} {caller : Caller} {call : Call}
    (h : (Member.ended e).Passed loop i (q.script env id occurrence stage) events)
    (hcalled : .called caller call ∈ events) :
    .cancelled caller call ∈ events ∨
      ∀ gate ∈ env.gatesOf caller call, loop.isOpen gate = true := by
  rcases h with h | ⟨-, before, farewell, rfl, h⟩
  · rcases answered_of_passes env id occurrence h hcalled with hgates | ⟨gate, later, hrest⟩
    · exact .inr hgates
    · cases hrest
  · have hbefore : .called caller call ∈ before :=
      (List.mem_append.mp hcalled).resolve_right (called_notMem_farewell env id occurrence h _ _)
    rcases h with ⟨rfl, -⟩ | ⟨gate, later, h⟩
    · cases hbefore
    · rcases answered_of_passes env id occurrence h hbefore with hgates | ⟨_, _, hrest⟩
      · exact .inr hgates
      · cases hrest
        exact .inl (by simp)

end Inquiry

end DepGraph
