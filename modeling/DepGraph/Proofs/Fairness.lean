import Mathlib.Data.List.Basic
import DepGraph.Proofs.Outcome

/-!
# Resolutions end

A schedule is an endless sequence of actions. Where jobs are carried out again and again, and no
call made for a file waits forever, the resolution of the file ends, whatever happens besides.

* `World.after` — the world after a number of actions of a schedule.
* `World.Fair` — what a schedule must do for a file.
* `World.tick_reaches` — every job that is due is carried out.
* `World.working_ends` — every resolution ends, because each turn leaves it less to do.
-/

set_option autoImplicit false

namespace DepGraph.World

variable {env : Nat → Environment} {options : Options} {a : Action} {w w' : World}

/-! ## Jobs keep their places -/

theorem ready_post (w : World) (job : Job) : w.loop.ready <+: (w.post job).loop.ready :=
  List.prefix_append _ _

theorem ready_alert (w : World) (listener : Option WalkRef) :
    w.loop.ready <+: (w.alert listener).loop.ready := by
  cases listener with
  | none => exact List.prefix_rfl
  | some ref => exact ready_post w _

/-- A move makes jobs due only after all that are due already. -/
theorem Move.ready (h : Move env a w w') : w.loop.ready <+: w'.loop.ready := by
  cases h with
  | aside h => exact h.loop.1
  | add =>
    unfold World.add
    split <;> exact List.prefix_rfl
  | setText => rw [World.loop_setText]
  | register => exact List.prefix_rfl
  | release => exact List.prefix_append _ _
  | ask =>
    rename_i resolver name listener _
    rcases resolve_spec (env resolver) w resolver name listener with
      ⟨_, h⟩ | ⟨_, _, _, _, ⟨_, _, _, h⟩ | ⟨_, _, _, _, h⟩ | ⟨_, h⟩⟩ <;> rw [h]
    · exact List.prefix_rfl
    · exact List.prefix_append _ _
    · exact List.prefix_rfl
  | askWithoutLoop => rw [loop_resolveWithoutLoop]
  | giveUp =>
    rename_i id waiter _
    unfold World.giveUp
    split
    · exact List.prefix_rfl
    · rename_i r _
      exact ready_alert (w.modifyFile id _) (r.cell.giveUp waiter).2

theorem Moves.ready (h : Moves env a w w') : w.loop.ready <+: w'.loop.ready := by
  induction h with
  | refl => exact List.prefix_rfl
  | tail _ hmove ih => exact ih.trans hmove.ready

/-- Whoever is carried out first, the others keep their places. -/
theorem ready_tick (env : Nat → Environment) (hw : w.Tidy) {job : Job} {loop : Loop Job}
    (h : w.loop.next? = some (job, loop)) : loop.ready <+: (w.tick env).loop.ready := by
  rcases tick_cases env hw with
    ⟨hnone, _⟩ | ⟨id, job', loop', hnext, ht⟩ | ⟨k, job', loop', hnext, ht⟩
  · rw [h] at hnone
    cases hnone
  · rw [h] at hnext
    cases hnext
    rw [ht]
    unfold performFile
    split
    · exact List.prefix_rfl
    · rename_i r _
      have hextends := Record.perform_extends (.file id) r id.name w.registries loop job'
      simp only [alert]
      split
      · exact hextends.1.trans (List.prefix_append _ _)
      · exact hextends.1
  · rw [h] at hnext
    cases hnext
    exact Moves.ready ht

theorem ready_apply (hw : w.Tidy) (ha : a ≠ .tick) :
    w.loop.ready <+: (w.apply env a).loop.ready :=
  Moves.ready (apply_moves hw.walks ha)

/-! ## Schedules -/

/-- The world after the first `n` actions of a schedule. -/
def after (env : Nat → Environment) (w : World) (schedule : Nat → Action) : Nat → World
  | 0 => w
  | n + 1 => (after env w schedule n).apply env (schedule n)

/-- What a schedule does for a file: jobs are carried out again and again, and no call that was made
for the file waits forever. -/
structure Fair (env : Nat → Environment) (w : World) (schedule : Nat → Action) (id : FileId) :
    Prop where
  ticks : ∀ n, ∃ m, n ≤ m ∧ schedule m = .tick
  answers : ∀ n gate job, (gate, .file id job) ∈ (w.after env schedule n).loop.waiting →
    ∃ m, n ≤ m ∧ (gate, .file id job) ∉ (w.after env schedule m).loop.waiting

variable {schedule : Nat → Action} {id : FileId}

theorem tidy_after (hw : w.Tidy) (n : Nat) : (w.after env schedule n).Tidy := by
  induction n with
  | zero => exact hw
  | succ n ih => exact tidy_apply env ih _

theorem options_after (hw : w.Tidy) (n : Nat) :
    (w.after env schedule n).store.options = w.store.options := by
  induction n with
  | zero => rfl
  | succ n ih => exact (options_apply (tidy_after hw n) _).trans ih

/-- Jobs are carried out, and a gate is opened once. -/
def openingAt (n : Nat) (gate : Gate) (m : Nat) : Action := if m = n then .release gate else .tick

/-- Some actions first, and from then on jobs are carried out. -/
def thenTicks (actions : List Action) (m : Nat) : Action := actions.getD m .tick

/-- Such a schedule is fair to every file if everything comes to rest after the actions. -/
theorem fair_thenTicks {actions : List Action} {k : Nat} (hk : actions.length ≤ k)
    (hready : (w.after env (thenTicks actions) k).loop.ready = [])
    (hwaiting : (w.after env (thenTicks actions) k).loop.waiting = []) :
    Fair env w (thenTicks actions) id := by
  have hticks : ∀ m, actions.length ≤ m → thenTicks actions m = .tick :=
    fun m hm => by rw [thenTicks, List.getD_eq_getElem?_getD, List.getElem?_eq_none hm]; rfl
  refine ⟨fun m => ⟨m + actions.length, by omega, hticks _ (by omega)⟩, fun m gate job _ => ?_⟩
  have hrest : ∀ d, w.after env (thenTicks actions) (k + d) =
      w.after env (thenTicks actions) k := by
    intro d
    induction d with
    | zero => rfl
    | succ d ih =>
      rw [← Nat.add_assoc, after, hticks _ (by omega), ih]
      simp [apply, tick, Loop.next?, hready]
  refine ⟨k + m, by omega, ?_⟩
  rw [hrest, hwaiting]
  simp

/-- Until the next tick every job that is due keeps its place. -/
theorem next_tick (env : Nat → Environment) (hw : w.Tidy)
    (hticks : ∀ n, ∃ m, n ≤ m ∧ schedule m = .tick) (n : Nat) :
    ∃ m, n ≤ m ∧ schedule m = .tick ∧
      (w.after env schedule n).loop.ready <+: (w.after env schedule m).loop.ready := by
  obtain ⟨m, hm, htick⟩ := hticks n
  obtain ⟨d, rfl⟩ := Nat.exists_eq_add_of_le hm
  clear hm
  induction d generalizing n with
  | zero => exact ⟨n, le_rfl, htick, List.prefix_rfl⟩
  | succ d ih =>
    by_cases h : schedule n = .tick
    · exact ⟨n, le_rfl, h, List.prefix_rfl⟩
    · obtain ⟨m, hm, hm', hready⟩ := ih (n + 1) (by rw [← htick]; congr 1; omega)
      exact ⟨m, by omega, hm', (ready_apply (tidy_after hw n) h).trans hready⟩

/-- **Every job that is due is carried out.** -/
theorem tick_reaches (hw : w.Tidy) (hticks : ∀ n, ∃ m, n ≤ m ∧ schedule m = .tick) {job : Job}
    {before rest : List Job} {n : Nat}
    (h : (w.after env schedule n).loop.ready = before ++ job :: rest) :
    ∃ m, n ≤ m ∧ schedule m = .tick ∧
      ∃ loop, (w.after env schedule m).loop.next? = some (job, loop) := by
  induction before generalizing n rest with
  | nil =>
    obtain ⟨m, hm, htick, more, hready⟩ := next_tick env hw hticks n
    rw [h] at hready
    exact ⟨m, hm, htick, by simp [Loop.next?, ← hready]⟩
  | cons first before ih =>
    obtain ⟨m, hm, htick, more, hready⟩ := next_tick env hw hticks n
    rw [h] at hready
    have hnext : (w.after env schedule m).loop.next? = some (first, { (w.after env schedule m).loop
        with ready := before ++ job :: (rest ++ more) }) := by
      simp [Loop.next?, ← hready]
    obtain ⟨new, hnew⟩ := ready_tick env (tidy_after hw m) hnext
    have hafter : (w.after env schedule (m + 1)).loop.ready =
        before ++ job :: (rest ++ more ++ new) := by
      rw [after, htick]
      exact hnew.symm.trans (by simp)
    obtain ⟨m', hm', h'⟩ := ih hafter
    exact ⟨m', by omega, h'⟩

end DepGraph.World

namespace DepGraph

/-! ## The lane of a file along a schedule -/

namespace Lane

variable {env : Nat → Environment} {options : Options} {id : FileId} {resolver : Nat}
  {occurrences : List Occurrence} {a : Action} {l l' : Lane}

/-- A touch that leaves nothing due lets all wait that waits. -/
theorem Touch.quiet (h : Touch env options id a l l') (hr : l'.loop.ready = []) :
    l.loop.ready = [] ∧ ∀ p ∈ l.loop.waiting, p ∈ l'.loop.waiting := by
  cases h with
  | read => exact ⟨hr, fun _ hp => hp⟩
  | start => exact absurd hr (by simp [Lane.start, Loop.post])
  | join => exact ⟨hr, fun _ hp => hp⟩
  | giveUp => exact ⟨hr, fun _ hp => hp⟩
  | write => exact ⟨hr, fun _ hp => hp⟩
  | release =>
    rename_i gate _
    obtain ⟨hready, hnone⟩ := List.append_eq_nil_iff.mp hr
    refine ⟨hready, fun p hp => List.mem_filter.mpr ⟨hp, ?_⟩⟩
    have hgate := List.filter_eq_nil_iff.mp (List.map_eq_nil_iff.mp hnone) p hp
    simpa using hgate

theorem Touches.quiet (h : Touches env options id a l l') (hr : l'.loop.ready = []) :
    l.loop.ready = [] ∧ ∀ p ∈ l.loop.waiting, p ∈ l'.loop.waiting := by
  induction h with
  | refl => exact ⟨hr, fun _ hp => hp⟩
  | tail _ ht ih =>
    obtain ⟨hr₁, hw₁⟩ := ht.quiet hr
    obtain ⟨hr₀, hw₀⟩ := ih hr₁
    exact ⟨hr₀, fun p hp => hw₁ p (hw₀ p hp)⟩

theorem Touches.underway (h : Touches env options id a l l')
    (hl : Underway (env resolver) options id resolver occurrences l) :
    Underway (env resolver) options id resolver occurrences l' ∧ l'.effort = l.effort := by
  induction h with
  | refl => exact ⟨hl, rfl⟩
  | tail _ ht ih =>
    obtain ⟨hu, he⟩ := ht.underway ih.1
    exact ⟨hu, he.trans ih.2⟩

theorem Touches.closed {ending : Ending Fault Dependencies} (h : Touches env options id a l l')
    (hl : Closed (env resolver) options id resolver occurrences ending l) :
    Closed (env resolver) options id resolver occurrences ending l' := by
  induction h with
  | refl => exact hl
  | tail _ ht ih => exact ht.closed ih

/-- The specifiers of a file are under way, with no more than `effort` left to do. -/
def Working (env : Nat → Environment) (options : Options) (id : FileId) (resolver : Nat)
    (occurrences : List Occurrence) (effort : Nat) (l : Lane) : Prop :=
  Underway (env resolver) options id resolver occurrences l ∧ l.effort ≤ effort

/-- The resolution of a file has ended. -/
def Ended (env : Nat → Environment) (options : Options) (id : FileId) (resolver : Nat)
    (occurrences : List Occurrence) (l : Lane) : Prop :=
  ∃ ending, Closed (env resolver) options id resolver occurrences ending l

end Lane

namespace World

variable {env : Nat → Environment} {options : Options} {id : FileId} {resolver : Nat}
  {occurrences : List Occurrence} {a : Action} {w : World} {l : Lane}

/-- An action leaves the specifiers under way with no more to do, and if it makes nothing due, lets
all wait that waits; or they have ended. -/
theorem working_apply (hw : w.Tidy) (hoptions : w.store.options = options) {effort : Nat}
    (hl : w.lane? id = some l) (h : Lane.Working env options id resolver occurrences effort l)
    (a : Action) :
    ∃ l', (w.apply env a).lane? id = some l' ∧
      (Lane.Ended env options id resolver occurrences l' ∨
        Lane.Working env options id resolver occurrences effort l' ∧
          (l.loop.ready = [] → l'.loop.ready = [] →
            ∀ p ∈ l.loop.waiting, p ∈ l'.loop.waiting)) := by
  obtain ⟨l', hl', ⟨-, -, rfl⟩ | htouch⟩ := lane_apply env hw hl a
  · refine ⟨_, hl', ?_⟩
    cases hnext : l.loop.next? with
    | none =>
      rw [Lane.turn_of_none hnext]
      exact .inr ⟨h, fun _ _ _ hp => hp⟩
    | some p =>
      obtain ⟨job, loop⟩ := p
      obtain ⟨-, -, hready⟩ := Loop.waiting_next? hnext
      rcases h.1.turn hnext w.registries with ⟨hu, hless⟩ | hended
      · refine .inr ⟨⟨hu, by have := h.2; omega⟩, fun hnil => ?_⟩
        rw [hready] at hnil
        cases hnil
      · exact .inl hended
  · rw [hoptions] at htouch
    obtain ⟨hu, he⟩ := htouch.underway h.1
    exact ⟨l', hl', .inr ⟨⟨hu, he.trans_le h.2⟩, fun _ hr => (htouch.quiet hr).2⟩⟩

/-- A tick that carries out a job of the file leaves less to do. -/
theorem working_tick {effort : Nat} (hl : w.lane? id = some l)
    (h : Lane.Working env options id resolver occurrences effort l) {job : FileJob}
    {loop : Loop Job} (hnext : w.loop.next? = some (.file id job, loop)) :
    ∃ l', (w.apply env .tick).lane? id = some l' ∧
      (Lane.Ended env options id resolver occurrences l' ∨
        ∃ less, less < effort ∧ Lane.Working env options id resolver occurrences less l') := by
  have htick : w.apply env .tick = ({ w with loop } : World).performFile id job := by
    change w.tick env = _
    simp [tick, hnext, perform]
  refine ⟨_, htick ▸ lane?_performFile hnext hl, ?_⟩
  have hlane : l.loop.next? = some (job, loop.select (Job.of? id)) := by
    rw [(lane?_eq_some.mp hl).2.1]
    exact next?_select hnext (Job.of?_file id job)
  rcases h.1.turn hlane w.registries with ⟨hu, hless⟩ | hended
  · exact .inr ⟨_, hless.trans_le h.2, hu, le_rfl⟩
  · exact .inl hended

theorem ended_apply (hw : w.Tidy) (hoptions : w.store.options = options)
    {ending : Ending Fault Dependencies} (hl : w.lane? id = some l)
    (h : Lane.Closed (env resolver) options id resolver occurrences ending l) (a : Action) :
    ∃ l', (w.apply env a).lane? id = some l' ∧
      Lane.Closed (env resolver) options id resolver occurrences ending l' := by
  obtain ⟨l', hl', ⟨-, -, rfl⟩ | htouch⟩ := lane_apply env hw hl a
  · exact ⟨_, hl', h.turn w.registries⟩
  · rw [hoptions] at htouch
    exact ⟨l', hl', htouch.closed h⟩

variable {schedule : Nat → Action}

/-- What has ended stays ended, with the same outcome. -/
theorem ended_after (hw : w.Tidy) (hoptions : w.store.options = options)
    {ending : Ending Fault Dependencies} {n : Nat} (hl : (w.after env schedule n).lane? id = some l)
    (h : Lane.Closed (env resolver) options id resolver occurrences ending l) {m : Nat}
    (hm : n ≤ m) :
    ∃ l', (w.after env schedule m).lane? id = some l' ∧
      Lane.Closed (env resolver) options id resolver occurrences ending l' := by
  induction m, hm using Nat.le_induction with
  | base => exact ⟨l, hl, h⟩
  | succ m hm ih =>
    obtain ⟨l', hl', h'⟩ := ih
    exact ended_apply (tidy_after hw m) ((options_after hw m).trans hoptions) hl' h' _

/-- From then on the specifiers are under way with no more to do, or have ended. -/
theorem working_after (hw : w.Tidy) (hoptions : w.store.options = options) {effort n : Nat}
    (hl : (w.after env schedule n).lane? id = some l)
    (h : Lane.Working env options id resolver occurrences effort l) {m : Nat} (hm : n ≤ m) :
    ∃ l', (w.after env schedule m).lane? id = some l' ∧
      (Lane.Ended env options id resolver occurrences l' ∨
        Lane.Working env options id resolver occurrences effort l') := by
  induction m, hm using Nat.le_induction with
  | base => exact ⟨l, hl, .inr h⟩
  | succ m hm ih =>
    obtain ⟨l₁, hl₁, ⟨ending, h₁⟩ | h₁⟩ := ih
    · obtain ⟨l', hl', h'⟩ :=
        ended_apply (tidy_after hw m) ((options_after hw m).trans hoptions) hl₁ h₁ (schedule m)
      exact ⟨l', hl', .inl ⟨ending, h'⟩⟩
    · obtain ⟨l', hl', h'⟩ := working_apply (tidy_after hw m) ((options_after hw m).trans hoptions)
        hl₁ h₁ (schedule m)
      exact ⟨l', hl', h'.imp_right And.left⟩

/-- As long as a job of the specifiers is due, it is carried out, and less is left to do. -/
theorem working_due (hw : w.Tidy) (hoptions : w.store.options = options)
    (hticks : ∀ n, ∃ m, n ≤ m ∧ schedule m = .tick) {effort n : Nat}
    (hl : (w.after env schedule n).lane? id = some l)
    (h : Lane.Working env options id resolver occurrences effort l) (hready : l.loop.ready ≠ []) :
    ∃ m l', n ≤ m ∧ (w.after env schedule m).lane? id = some l' ∧
      (Lane.Ended env options id resolver occurrences l' ∨
        ∃ less, less < effort ∧ Lane.Working env options id resolver occurrences less l') := by
  obtain ⟨job, hjob⟩ := List.exists_mem_of_ne_nil _ hready
  rw [(lane?_eq_some.mp hl).2.1] at hjob
  obtain ⟨shared, hshared, hof⟩ := List.mem_filterMap.mp hjob
  obtain rfl := (Job.of?_unwraps id _ _).mp hof
  obtain ⟨before, rest, hsplit⟩ := List.append_of_mem hshared
  obtain ⟨m, hm, htick, loop, hnext⟩ := tick_reaches hw hticks hsplit
  obtain ⟨l₁, hl₁, hended | hworking⟩ := working_after hw hoptions hl h hm
  · exact ⟨m, l₁, hm, hl₁, .inl hended⟩
  · obtain ⟨l', hl', h'⟩ := working_tick hl₁ hworking hnext
    exact ⟨m + 1, l', by omega, by rw [after, htick]; exact hl', h'⟩

/-- While no job of the specifiers is due, one waits for a call that will be answered. -/
theorem working_waiting (hw : w.Tidy) (hoptions : w.store.options = options)
    (hfair : Fair env w schedule id) {effort n : Nat}
    (hl : (w.after env schedule n).lane? id = some l)
    (h : Lane.Working env options id resolver occurrences effort l) (hidle : l.loop.ready = []) :
    ∃ m l', n ≤ m ∧ (w.after env schedule m).lane? id = some l' ∧
      (Lane.Ended env options id resolver occurrences l' ∨
        Lane.Working env options id resolver occurrences effort l' ∧ l'.loop.ready ≠ []) := by
  obtain ⟨join, events, hwork, hrunning, -⟩ := h.1.running
  have hjoint : l.joint.ready = [] := by simp [Lane.joint, Loop.select, hidle]
  obtain ⟨⟨gate, job⟩, hp⟩ := hrunning.accounts.waits hrunning.sound hrunning.wake
    (fun hnil => (hrunning.launch hnil).1) hjoint
  have hwaiting : (gate, FileJob.join job) ∈ l.loop.waiting := by
    obtain ⟨⟨gate', job'⟩, hmem, hsome⟩ := List.mem_filterMap.mp hp
    obtain ⟨job'', hjob, hpair⟩ := Option.map_eq_some_iff.mp hsome
    cases hpair
    obtain rfl := (FileJob.join?_unwraps _ _).mp hjob
    exact hmem
  by_contra hnever
  push Not at hnever
  -- Otherwise nothing ever comes to be due, so that the call is never answered.
  have hforever : ∀ d, ∃ l', (w.after env schedule (n + d)).lane? id = some l' ∧
      Lane.Working env options id resolver occurrences effort l' ∧ l'.loop.ready = [] ∧
      (gate, FileJob.join job) ∈ l'.loop.waiting := by
    intro d
    induction d with
    | zero => exact ⟨l, hl, h, hidle, hwaiting⟩
    | succ d ih =>
      obtain ⟨l₁, hl₁, h₁, hidle₁, hwaiting₁⟩ := ih
      obtain ⟨l', hl', h'⟩ := working_apply (tidy_after hw (n + d))
        ((options_after hw (n + d)).trans hoptions) hl₁ h₁ (schedule (n + d))
      obtain ⟨hnot, hquiet⟩ := hnever (n + d + 1) l' (by omega) hl'
      obtain ⟨hworking, hkept⟩ := h'.resolve_left hnot
      exact ⟨l', hl', hworking, hquiet hworking, hkept hidle₁ (hquiet hworking) _ hwaiting₁⟩
  have hshared : ∀ d,
      (gate, Job.file id (.join job)) ∈ (w.after env schedule (n + d)).loop.waiting := by
    intro d
    obtain ⟨l', hl', -, -, hmem⟩ := hforever d
    rw [(lane?_eq_some.mp hl').2.1] at hmem
    obtain ⟨⟨gate', shared⟩, hmem', hsome⟩ := List.mem_filterMap.mp hmem
    obtain ⟨job', hjob, hpair⟩ := Option.map_eq_some_iff.mp hsome
    cases hpair
    obtain rfl := (Job.of?_unwraps id _ _).mp hjob
    exact hmem'
  obtain ⟨m, hm, hnot⟩ := hfair.answers n gate (.join job) (hshared 0)
  obtain ⟨d, rfl⟩ := Nat.exists_eq_add_of_le hm
  exact hnot (hshared d)

/-- **Every resolution ends.** -/
theorem working_ends (hw : w.Tidy) (hoptions : w.store.options = options)
    (hfair : Fair env w schedule id) {effort n : Nat}
    (hl : (w.after env schedule n).lane? id = some l)
    (h : Lane.Working env options id resolver occurrences effort l) :
    ∃ m l', n ≤ m ∧ (w.after env schedule m).lane? id = some l' ∧
      Lane.Ended env options id resolver occurrences l' := by
  induction effort using Nat.strong_induction_on generalizing n l with
  | _ effort ih =>
    have hdue : ∀ n l, (w.after env schedule n).lane? id = some l →
        Lane.Working env options id resolver occurrences effort l → l.loop.ready ≠ [] →
        ∃ m l', n ≤ m ∧ (w.after env schedule m).lane? id = some l' ∧
          Lane.Ended env options id resolver occurrences l' := by
      intro n l hl h hready
      obtain ⟨m, l₁, hm, hl₁, hended | ⟨less, hless, hworking⟩⟩ :=
        working_due hw hoptions hfair.ticks hl h hready
      · exact ⟨m, l₁, hm, hl₁, hended⟩
      · obtain ⟨m', l', hm', h'⟩ := ih less hless hl₁ hworking
        exact ⟨m', l', hm.trans hm', h'⟩
    by_cases hready : l.loop.ready = []
    · obtain ⟨m, l₁, hm, hl₁, hended | ⟨hworking, hready₁⟩⟩ :=
        working_waiting hw hoptions hfair hl h hready
      · exact ⟨m, l₁, hm, hl₁, hended⟩
      · obtain ⟨m', l', hm', h'⟩ := hdue m l₁ hl₁ hworking hready₁
        exact ⟨m', l', hm.trans hm', h'⟩
    · exact hdue n l hl h hready

end World

end DepGraph
