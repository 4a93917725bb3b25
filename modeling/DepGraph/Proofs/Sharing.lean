import DepGraph.Proofs.AllOrNothing
import DepGraph.Proofs.FirstRequest
import DepGraph.Proofs.LaterRequests
import DepGraph.Proofs.Refinement

/-!
# One resolution for everyone who asks

* `World.everyone_hears` — along every fair schedule, everyone who has asked comes to have the
  outcome of the resolution.
* `World.computed_once` — a file is read once and its resolution started once, for everyone who
  asks; who asks later changes nothing for anyone else.
-/

set_option autoImplicit false

namespace DepGraph.World

variable {env : Nat → Environment} {options : Options} {w : World} {id : FileId}
  {schedule : Nat → Action}

/-! ## Everyone hears -/

theorem after_eq_run (w : World) (schedule : Nat → Action) (n : Nat) :
    w.after env schedule n = w.run env ((List.range n).map schedule) := by
  induction n with
  | zero => rfl
  | succ n ih => rw [List.range_succ, List.map_append, List.map_singleton, run_concat, ← ih, after]

theorem after_add (w : World) (schedule : Nat → Action) (n d : Nat) :
    w.after env schedule (n + d) =
      (w.after env schedule n).run env ((List.range d).map fun i => schedule (n + i)) := by
  rw [after_eq_run, after_eq_run, ← run_append, List.range_add, List.map_append, List.map_map]
  rfl

/-- A waiter who is told has an outcome from then on. -/
theorem outcome_of_tell {l : Lane} {k : Nat} {loop : Loop Job} {ending : Ending Fault Dependencies}
    (hnext : w.loop.next? = some (.file id (.tell k), loop)) (hl : w.lane? id = some l)
    (hs : l.record.cell.stage = .ended ending) {x : Waiter WalkRef Fault Dependencies}
    (hx : l.record.cell.waiters[k]? = some x) :
    ∃ o, (w.apply env .tick).outcome? id k = some o := by
  have htick : w.apply env .tick = ({ w with loop } : World).performFile id (.tell k) := by
    change w.tick env = _
    simp [tick, hnext, perform]
  have hturn := lane?_performFile hnext hl
  have hlane : l.loop.next? = some (.tell k, loop.select (Job.of? id)) := by
    rw [(lane?_eq_some.mp hl).2.1]
    exact next?_select hnext (Job.of?_file id _)
  rw [← htick, Lane.turn_tell hlane, Cell.tell_of_ended hs] at hturn
  have hwaiter : (l.record.cell.settleWaiter k ending).1.waiters[k]? =
      some (if x.outcome = none then { x with outcome := some ending } else x) := by
    rw [Cell.getElem?_settleWaiter, hx]
    simp
  rw [outcome?_of_lane hturn]
  change ∃ o, (l.record.cell.settleWaiter k ending).1.waiters[k]?.bind (·.outcome) = some o
  rw [hwaiter]
  cases ho : x.outcome with
  | none => exact ⟨ending, by simp⟩
  | some o => exact ⟨o, by simp [ho]⟩

/-- Everyone who has asked for a file is there from then on. -/
theorem waiter_after (hw : w.Tidy) {n m : Nat} (hnm : n ≤ m) {l lm : Lane}
    (hl : (w.after env schedule n).lane? id = some l)
    (hlm : (w.after env schedule m).lane? id = some lm) {k : Nat}
    {x : Waiter WalkRef Fault Dependencies} (hx : l.record.cell.waiters[k]? = some x) :
    ∃ xm, lm.record.cell.waiters[k]? = some xm := by
  obtain ⟨d, rfl⟩ := Nat.exists_eq_add_of_le hnm
  have hgrows : (w.after env schedule n).store.Grows (w.after env schedule (n + d)).store := by
    rw [after_add]
    exact grows_run env (tidy_after hw n) _
  obtain ⟨r, hr, hjoined⟩ := hgrows id l.record (lane?_eq_some.mp hl).1
  obtain rfl := Option.some.inj (hr.symm.trans (lane?_eq_some.mp hlm).1)
  obtain ⟨xm, hxm, -⟩ := hjoined k x hx
  exact ⟨xm, hxm⟩

/-- Once a resolution has ended, everyone who has asked comes to have an outcome, as long as jobs
are carried out. -/
theorem hears_of_ended (hw : w.Tidy) (hoptions : w.store.options = options)
    (hticks : ∀ n, ∃ m, n ≤ m ∧ schedule m = .tick) {n : Nat} {l : Lane}
    (hl : (w.after env schedule n).lane? id = some l) {resolver : Nat}
    {occurrences : List Occurrence} (hended : l.Ended env options id resolver occurrences) {k : Nat}
    {x : Waiter WalkRef Fault Dependencies} (hx : l.record.cell.waiters[k]? = some x) :
    ∃ m o, n ≤ m ∧ (w.after env schedule m).outcome? id k = some o := by
  obtain ⟨ending, hclosed⟩ := hended
  cases ho : x.outcome with
  | some o => exact ⟨n, o, le_rfl, by simp [outcome?_of_lane hl, hx, ho]⟩
  | none =>
    -- The job that tells it is due, so it is carried out.
    have hdue := (Loop.mem_select (Job.of?_unwraps id)).mp
      ((lane?_eq_some.mp hl).2.1 ▸ hclosed.tells k x hx ho)
    obtain ⟨before, rest, hsplit⟩ := List.append_of_mem hdue
    obtain ⟨m, hm, htick, loop, hnext⟩ := tick_reaches hw hticks hsplit
    obtain ⟨lm, hlm, hclosed'⟩ := ended_after hw hoptions hl hclosed hm
    obtain ⟨xm, hxm⟩ := waiter_after hw hm hl hlm hx
    have htold : ∃ o, ((w.after env schedule m).apply env .tick).outcome? id k = some o :=
      outcome_of_tell hnext hlm hclosed'.stage hxm
    rw [← htick] at htold
    obtain ⟨o, hout⟩ := htold
    exact ⟨m + 1, o, by omega, hout⟩

/-- Where a resolution was started, every fair schedule brings it to an end, and everyone who has
asked by then has an outcome some time after. -/
theorem everyone_hears (hw : w.Tidy) (hoptions : w.store.options = options)
    (hfair : Fair env w schedule id) {l : Lane} (hl : w.lane? id = some l) {resolver : Nat}
    {occurrences : List Occurrence} (hs : l.Started env options id resolver occurrences) :
    ∃ n ending, (∀ m, n ≤ m → ∃ r, (w.after env schedule m).store.record? id = some r ∧
        r.cell.stage = .ended ending) ∧
      ∀ k x, l.record.cell.waiters[k]? = some x →
        ∃ m o, n ≤ m ∧ (w.after env schedule m).outcome? id k = some o := by
  obtain ⟨n, ln, hln, ending, hclosed⟩ : ∃ n ln, (w.after env schedule n).lane? id = some ln ∧
      ln.Ended env options id resolver occurrences := by
    rcases hs with hs | ⟨ending, hs⟩
    · obtain ⟨n, ln, -, hln, hended⟩ := working_ends hw hoptions hfair (n := 0) hl ⟨hs, le_rfl⟩
      exact ⟨n, ln, hln, hended⟩
    · exact ⟨0, l, hl, ending, hs⟩
  refine ⟨n, ending, fun m hm => ?_, fun k x hx => ?_⟩
  · obtain ⟨lm, hlm, hclosed'⟩ := ended_after hw hoptions hln hclosed hm
    exact ⟨lm.record, (lane?_eq_some.mp hlm).1, hclosed'.stage⟩
  · obtain ⟨xn, hxn⟩ := waiter_after hw (Nat.zero_le n) hl hln hx
    exact hears_of_ended hw hoptions hfair.ticks hln ⟨ending, hclosed⟩ hxn

/-! ## One resolution for all -/

/-- A request that finds a file brings a waiter for it, and leaves its resolution started. -/
theorem request_started (hlawful : ∀ l, w.lane? id = some l → l.Lawful env options id)
    {k : Nat} {listener : Option WalkRef} (h : w.store.Listens id k listener) :
    ∃ r x, w.store.record? id = some r ∧ r.cell.stage ≠ .unstarted ∧
      r.cell.waiters[k]? = some x ∧ x.listener = listener := by
  obtain ⟨r, x, hr, hx, hlistener⟩ := h
  refine ⟨r, x, hr, fun hs => ?_, hx, hlistener⟩
  have hidle := (hlawful _ (lane?_of_record? hr)).idle_of_unstarted hs
  rw [hidle.waiters] at hx
  cases hx

/-- Along every fair schedule, everyone who has asked for a file comes to have the outcome of its
resolution, unless it gives up. -/
theorem hears_run (options : Options) (libName : String) (registries : Nat → Registry)
    (actions : List Action) {r : Record}
    (hr : ((initial options libName registries).run env actions).store.record? id = some r)
    (hs : r.cell.stage ≠ .unstarted)
    (hfair : Fair env ((initial options libName registries).run env actions) schedule id) :
    ∃ ending, ResolvesTo env ((initial options libName registries).run env actions) schedule id
        ending ∧
      ∀ k x, r.cell.waiters[k]? = some x → ∃ n o,
        (((initial options libName registries).run env actions).after env schedule n).outcome? id
            k = some o ∧
          (o = ending ∨ o = .cancelled ∧
            GaveUp (actions ++ (List.range n).map schedule) id k x.listener) := by
  have htidy := tidy_initial options libName registries
  have hw := tidy_run env htidy actions
  rcases lawful_run options libName registries actions (lane?_of_record? hr) with
    hidle | ⟨resolver, occurrences, hstarted⟩
  · exact absurd hidle.stage hs
  obtain ⟨n, ending, hends, hhears⟩ := everyone_hears hw (options_run htidy actions) hfair
    (lane?_of_record? hr) hstarted
  refine ⟨ending, ⟨n, hends⟩, fun k x hx => ?_⟩
  obtain ⟨m, o, hm, hout⟩ := hhears k x hx
  refine ⟨m, o, hout, ?_⟩
  obtain ⟨rm, hrm, hsm⟩ := hends m hm
  have hrun : ((initial options libName registries).run env actions).after env schedule m =
      (initial options libName registries).run env (actions ++ (List.range m).map schedule) := by
    rw [after_eq_run, run_append]
  have hgrows := grows_run env hw ((List.range m).map schedule)
  rw [← after_eq_run] at hgrows
  obtain ⟨r', hr', hjoined⟩ := hgrows id r hr
  obtain rfl := Option.some.inj (hr'.symm.trans hrm)
  obtain ⟨xm, hxm, hlistener⟩ := hjoined k x hx
  rw [outcome?_of_lane (lane?_of_record? hr'), hxm] at hout
  rw [hrun] at hr'
  rcases truthful_run options libName registries _ (lane?_of_record? hr') k xm o hxm hout with
    hended | ⟨rfl, hgave⟩
  · rw [hsm] at hended
    cases hended
    exact .inl rfl
  · exact .inr ⟨rfl, hlistener ▸ hgave⟩

/-- **At most one computation for a file, shared by all who ask.** While a loop is running and no
text is unreadable, every request that finds a file brings a waiter for it. The resolution of the
file was started by the first who asked, with the text of that time, in the action that asked and by
the resolver asked; from then on the file is not read again, its cell never goes back, and its work
stays the same. A run without the later requests comes to the same log and the same world, but for
their waiters. Whoever has an outcome has the one outcome of the file, unless it gave up; and along
every fair schedule everyone comes to have one. -/
theorem computed_once (env : Nat → Environment) (options : Options) (libName : String)
    (registries : Nat → Registry) {start : World}
    (hstart : start = initial options libName registries) (actions : List Action)
    (hloop : ∀ resolver name, .resolveWithoutLoop resolver name ∉ actions)
    (hextract : ∀ k text, ∃ result, (env k).extract text = .ok result) (id : FileId) :
    (∀ before after resolver, actions = before ++ .resolve resolver id.name :: after →
      (start.run env before).store.current? id.name = some id →
      ∃ k r x,
        ((start.run env before).resolve (env resolver) resolver id.name none).2 = .ok (id, k) ∧
        (start.run env actions).store.record? id = some r ∧ r.cell.stage ≠ .unstarted ∧
        r.cell.waiters[k]? = some x ∧ x.listener = none) ∧
    ∀ r, (start.run env actions).store.record? id = some r → r.cell.stage ≠ .unstarted →
      (∃ before a after resolver found notices r₁, actions = before ++ a :: after ∧
        (∀ r₀, (start.run env before).store.record? id = some r₀ →
          r₀.cell.stage = .unstarted ∧ r₀.text = r₁.text) ∧
        (start.run env before).Receives id a resolver ∧
        (start.run env (before ++ [a])).store.record? id = some r₁ ∧
        r₁.cell.stage = .inProgress ∧ (env resolver).extract r₁.text = .ok (found, notices) ∧
        r₁.work = some (workOf (env resolver) options resolver id found) ∧
        ∀ middle rest, after = middle ++ rest → ∃ r₂ work,
          (start.run env (before ++ a :: middle)).store.record? id = some r₂ ∧
          r₂.cell.stage ≠ .unstarted ∧ r₂.work = some work ∧ work.resolver = resolver ∧
          work.occurrences = found.occurrences ∧
          (start.run env (before ++ a :: middle)).log.filter (Event.isReading id) =
            [.extracting id r₁.text]) ∧
      (∃ rest gone, rest = withoutLater env id gone start actions ∧
        gone = laterWaiters env id start actions ∧ laterWaiters env id start rest = [] ∧
        (start.run env rest).log = (start.run env actions).log ∧
        (start.run env rest).store.record? id = some (r.without gone) ∧
        start.run env rest = (start.run env actions).without id gone) ∧
      (∀ k x o, r.cell.waiters[k]? = some x → x.outcome = some o →
        r.cell.stage = .ended o ∨ o = .cancelled ∧ GaveUp actions id k x.listener) ∧
      ∀ schedule, Fair env (start.run env actions) schedule id →
        ∃ ending, ResolvesTo env (start.run env actions) schedule id ending ∧
          ∀ k x, r.cell.waiters[k]? = some x → ∃ n o,
            ((start.run env actions).after env schedule n).outcome? id k = some o ∧
            (o = ending ∨ o = .cancelled ∧
              GaveUp (actions ++ (List.range n).map schedule) id k x.listener) := by
  subst hstart
  have htidy := tidy_initial options libName registries
  have hlawful : ∀ l, ((initial options libName registries).run env actions).lane? id = some l →
      l.Lawful env options id := fun l hl => lawful_run options libName registries actions hl
  refine ⟨fun before after resolver hsplit hid => ?_, fun r hr hs => ⟨?_, ?_, ?_, ?_⟩⟩
  · have hw := tidy_run env htidy before
    obtain ⟨r₀, hr₀⟩ := hw.inhabited.record? hid
    obtain ⟨k, hk⟩ : ∃ k, (((initial options libName registries).run env before).resolve
        (env resolver) resolver id.name none).2 = .ok (id, k) := by
      by_cases hs : r₀.cell.stage = .unstarted
      · obtain ⟨⟨found, notices⟩, he⟩ := hextract resolver r₀.text
        exact ⟨_, congrArg Prod.snd (resolve_first hid hr₀ hs he)⟩
      · exact ⟨_, congrArg Prod.snd (resolve_later hid hr₀ hs)⟩
    have hlistens := listens_resolve (Prod.ext rfl hk)
    have hgrows := grows_run env (tidy_apply env hw (.resolve resolver id.name)) after
    have hrun : ((initial options libName registries).run env actions) =
        (((initial options libName registries).run env before).apply env
          (.resolve resolver id.name)).run env after := by
      rw [hsplit, run_append]
      rfl
    rw [← hrun] at hgrows
    obtain ⟨r, x, hr, hs, hx, hlistener⟩ := request_started hlawful (hgrows.listens hlistens)
    exact ⟨k, r, x, hk, hr, hs, hx, hlistener⟩
  · rcases first_request options libName registries actions hloop hextract
      (lane?_of_record? hr) with
      huntouched | ⟨before, a, after, resolver, found, l₁, hsplit, hbefore, hl₁, hjust, hreceives⟩
    · exact absurd huntouched.1.stage hs
    obtain ⟨notices, hread⟩ := hjust.read
    refine ⟨before, a, after, resolver, found, notices, l₁.record, hsplit, fun r₀ hr₀ => ?_,
      hreceives, (lane?_eq_some.mp hl₁).1, hjust.stage, hread, hjust.work, fun middle rest _ => ?_⟩
    · obtain ⟨huntouched, htext⟩ := hbefore _ (lane?_of_record? hr₀)
      exact ⟨huntouched.1.stage, htext⟩
    · obtain ⟨l₂, hl₂, hstarted, -, hlog⟩ := read_once options libName registries hl₁ hjust middle
      rw [List.append_assoc, List.singleton_append] at hl₂
      obtain ⟨hr₂, -, hown⟩ := lane?_eq_some.mp hl₂
      obtain ⟨join, hwork, -⟩ := hstarted.accounts
      refine ⟨l₂.record, _, hr₂, hstarted.stage_ne, hwork, rfl, rfl, ?_⟩
      rw [← hlog, hown, List.filter_filter]
      refine List.filter_congr fun e _ => ?_
      cases e <;> simp [Event.isReading, Event.isOf]
  · obtain ⟨hrun, hnone⟩ := run_without htidy hloop (by simp)
      (List.nil_append (laterWaiters env id (initial options libName registries) actions)).symm
    have hstart : ∀ gone, (initial options libName registries).without id gone =
        initial options libName registries := fun _ => rfl
    rw [hstart] at hrun hnone
    refine ⟨_, _, rfl, rfl, hnone, ?_, ?_, hrun⟩
    · rw [hrun, log_without]
    · rw [hrun, record?_without, hr, Option.map_some, Record.spared_self]
  · exact truthful_run options libName registries actions (lane?_of_record? hr)
  · exact fun schedule => hears_run options libName registries actions hr hs

/-- A file is asked for by two resolvers, again by the second once it is done. -/
def sharedRun : List Action :=
  [.add "a" "", .resolve 0 "a", .tick, .resolve 1 "a", .setText "a" "b", .tick, .release "g"] ++
    List.replicate 6 .tick ++ [.resolve 1 "a"]

theorem computed_once_shared : ∃ rest gone,
    rest = withoutLater oneReference ⟨"a", 0⟩ gone (initial {} defaultLibName fun _ => {})
      sharedRun ∧
    rest.length = 11 ∧ gone = [1, 2] ∧
    ((initial {} defaultLibName fun _ => {}).run oneReference rest).log =
      ((initial {} defaultLibName fun _ => {}).run oneReference sharedRun).log := by
  obtain ⟨-, hall⟩ := computed_once oneReference {} defaultLibName (fun _ => {}) rfl sharedRun
    (by simp [sharedRun]) (fun _ _ => ⟨_, rfl⟩) ⟨"a", 0⟩
  obtain ⟨-, ⟨rest, gone, rfl, rfl, -, hlog, -⟩, -⟩ := hall _ rfl (by decide)
  exact ⟨_, _, rfl, rfl, rfl, hlog⟩

end DepGraph.World
