import DepGraph.Proofs.Failures

/-!
# All or nothing

* `GaveUp` — a waiter was cancelled by whoever waits.
* `World.first_failure` — the failure of a resolution is that of the occurrence that failed first.
* `World.all_or_nothing` — a record has dependencies if and only if its resolution is done, it
  fails if and only if something went wrong, and everyone who waits learns of the first failure.
-/

set_option autoImplicit false

namespace DepGraph

/-- Waiter `k` of a file was cancelled: it gave up itself, or the walk that listens to it was
cancelled. -/
def GaveUp (past : List Action) (id : FileId) (k : Nat) (listener : Option WalkRef) : Prop :=
  .giveUp id k ∈ past ∨ ∃ walk place, .cancelWalk walk ∈ past ∧ listener = some ⟨walk, place⟩

theorem GaveUp.later {past : List Action} {id : FileId} {k : Nat} {listener : Option WalkRef}
    (h : GaveUp past id k listener) (a : Action) : GaveUp (past ++ [a]) id k listener := by
  rcases h with h | ⟨walk, place, h, hlistener⟩
  · exact .inl (List.mem_append_left _ h)
  · exact .inr ⟨walk, place, List.mem_append_left _ h, hlistener⟩

namespace Lane

variable {envs : Nat → Environment} {options : Options} {id : FileId} {l l' : Lane} {a : Action}
  {past : List Action}

/-- Whoever has an outcome has that of the resolution, or was cancelled, as `gone` says of its number
and its listener. -/
def Explained (gone : Nat → Option WalkRef → Prop) (l : Lane) : Prop :=
  ∀ k x o, l.record.cell.waiters[k]? = some x → x.outcome = some o →
    l.record.cell.stage = .ended o ∨ o = .cancelled ∧ gone k x.listener

/-- Whoever has an outcome has that of the resolution, or gave up. -/
def Truthful (past : List Action) (id : FileId) (l : Lane) : Prop :=
  ∀ k x o, l.record.cell.waiters[k]? = some x → x.outcome = some o →
    l.record.cell.stage = .ended o ∨ o = .cancelled ∧ GaveUp past id k x.listener

theorem Cancels.gaveUp {k : Nat} {x : Waiter WalkRef Fault Dependencies} (h : l.Cancels id a k)
    (hx : l.record.cell.waiters[k]? = some x) : GaveUp (past ++ [a]) id k x.listener := by
  rcases h with rfl | ⟨walk, place, y, rfl, hy, hlistener⟩
  · exact .inl (by simp)
  · obtain rfl := Option.some.inj (hx.symm.trans hy)
    exact .inr ⟨walk, place, by simp, hlistener⟩

variable {gone : Nat → Option WalkRef → Prop}

/-- A turn tells waiters the outcome of the resolution only. -/
theorem Explained.turn (h : Explained gone l) (hl : Lawful envs options id l)
    (registries : Nat → Registry) : Explained gone (l.turn id registries) := by
  intro k x o hx ho
  rcases hl.turn_cell registries with hcell | ⟨hstage, ending, hcell⟩ | ⟨ending, j, hstage, hcell⟩
  · rw [hcell] at hx ⊢
    exact h k x o hx ho
  · rw [hcell] at hx ⊢
    rcases h k x o hx ho with hended | hgone
    · rw [hstage] at hended
      cases hended
    · exact .inr hgone
  · rw [hcell, Cell.getElem?_settleWaiter, Option.map_eq_some_iff] at hx
    obtain ⟨y, hy, rfl⟩ := hx
    rw [hcell, Cell.stage_settleWaiter]
    split at ho
    · exact .inl (hstage.trans (congrArg _ (Option.some.inj ho)))
    · rename_i hother
      rw [if_neg hother]
      exact h k y o hy ho

/-- A touch cancels at most those whom the action cancels. -/
theorem Explained.touch (h : Explained gone l) (ht : Touch envs options id a l l')
    (hgone : ∀ k x, l.Cancels id a k → l.record.cell.waiters[k]? = some x → gone k x.listener) :
    Explained gone l' := by
  intro k x o hx ho
  cases ht with
  | read => exact h k x o hx ho
  | start hs =>
    rcases h k x o hx ho with hended | hgone
    · rw [hs] at hended
      cases hended
    · exact .inr hgone
  | join listener hs =>
    have hx' : (l.record.cell.waiters ++ [{ listener, outcome := l.record.cell.ending? }])[k]? =
      some x := hx
    rcases Nat.lt_or_ge k l.record.cell.waiters.length with hlt | hge
    · rw [List.getElem?_append_left hlt] at hx'
      exact h k x o hx' ho
    · -- Who comes after the end has the outcome at once.
      rw [List.getElem?_append_right hge] at hx'
      obtain rfl := List.mem_singleton.mp (List.mem_of_getElem? hx')
      exact .inl (Cell.ending?_eq_some.mp ho)
  | @giveUp waiter hcancels =>
    have hx' : (l.record.cell.settleWaiter waiter .cancelled).1.waiters[k]? = some x := hx
    rw [Cell.getElem?_settleWaiter, Option.map_eq_some_iff] at hx'
    obtain ⟨y, hy, rfl⟩ := hx'
    change (l.record.cell.settleWaiter waiter .cancelled).1.stage = _ ∨ _
    rw [Cell.stage_settleWaiter]
    split at ho
    · rename_i hself
      obtain ⟨rfl, hnone⟩ := hself
      rw [if_pos ⟨rfl, hnone⟩]
      have hself : gone k y.listener := hgone k y hcancels hy
      exact .inr ⟨(Option.some.inj ho).symm, hself⟩
    · rename_i hother
      rw [if_neg hother]
      exact h k y o hy ho
  | write => exact h k x o hx ho
  | release => exact h k x o hx ho

theorem Truthful.turn (h : Truthful past id l) (hl : Lawful envs options id l)
    (registries : Nat → Registry) : Truthful past id (l.turn id registries) :=
  Explained.turn h hl registries

theorem Truthful.touch (h : Truthful (past ++ [a]) id l) (ht : Touch envs options id a l l') :
    Truthful (past ++ [a]) id l' :=
  Explained.touch h ht fun _ _ hcancels hx => hcancels.gaveUp hx

end Lane

namespace World

variable {env : Nat → Environment}

/-- Whoever has an outcome, in any run, has that of the resolution, or gave up. -/
theorem truthful_run (options : Options) (libName : String) (registries : Nat → Registry)
    (actions : List Action) {id : FileId} {l : Lane}
    (hl : ((initial options libName registries).run env actions).lane? id = some l) :
    l.Truthful actions id := by
  refine (lane_run_past (P := fun past l => l.Lawful env options id ∧ l.Truthful past id)
    (fun past text opened => ⟨.inl (Lane.idle_fresh id text opened), fun k x o hx => ?_⟩)
    (fun past a l h => ⟨h.1, fun k x o hx ho => (h.2 k x o hx ho).imp_right fun hgave =>
      ⟨hgave.1, hgave.2.later a⟩⟩)
    (fun past l registries h => ⟨h.1.turn registries, h.2.turn h.1 registries⟩)
    (fun past a l l' ht h => ⟨h.1.touch ht, h.2.touch ht⟩) libName registries actions hl).2
  simp [Lane.fresh] at hx

/-- **The failure that a resolution is bound to end with is that of the occurrence that failed
first**: before some action nobody has failed, and after it one occurrence has. -/
theorem first_failure (options : Options) (libName : String) (registries : Nat → Registry)
    (actions : List Action) {id : FileId} {l : Lane} {failure : Ending Fault Empty}
    (hl : ((initial options libName registries).run env actions).lane? id = some l)
    (hf : l.failing? = some failure) :
    ∃ before a after l₁ resolver occurrences i, actions = before ++ a :: after ∧
      (∀ l₀, ((initial options libName registries).run env before).lane? id = some l₀ →
        ∀ j g, ¬l₀.record.Fails j g) ∧
      ((initial options libName registries).run env (before ++ [a])).lane? id = some l₁ ∧
      Lane.Underway (env resolver) options id resolver occurrences l₁ ∧
      ∀ j g, l₁.record.Fails j g ↔ j = i ∧ g = failure := by
  induction actions using List.reverseRec generalizing l with
  | nil =>
    have hl' : (initial options libName registries).lane? id = some l := hl
    rw [lane?_initial] at hl'
    cases hl'
  | append_singleton actions a ih =>
    have htouches : ∀ l₀ l', l₀.Lawful env options id → Lane.Touches env options id a l₀ l' →
        l'.Lawful env options id ∧ l'.failing? = l₀.failing? := by
      intro l₀ l' hlawful h
      induction h with
      | refl => exact ⟨hlawful, rfl⟩
      | tail _ hstep ih => exact ⟨ih.1.touch hstep, (hstep.failing ih.1).trans ih.2⟩
    rcases lane_concat options libName registries actions a hl with
      ⟨l₀, hl₀, h⟩ | ⟨_, text, opened, h⟩
    · have hlawful := lawful_run options libName registries actions hl₀
      cases hf₀ : l₀.failing? with
      | some first =>
        obtain rfl : first = failure := by
          rcases h with ⟨-, registries', rfl⟩ | h
          · rw [hlawful.failing_turn hf₀] at hf
            exact Option.some.inj hf
          · rw [(htouches l₀ l hlawful h).2, hf₀] at hf
            exact Option.some.inj hf
        obtain ⟨before, b, after, l₁, resolver, occurrences, i, rfl, hrest⟩ := ih hl₀ hf₀
        exact ⟨before, b, after ++ [a], l₁, resolver, occurrences, i, by simp, hrest⟩
      | none =>
        rcases h with ⟨-, registries', rfl⟩ | h
        · obtain ⟨resolver, occurrences, i, hunderway, hfirst⟩ := hlawful.first_turn hf₀ hf
          refine ⟨actions, a, [], _, resolver, occurrences, i, rfl, fun l₀' hl₀' j g => ?_, hl,
            hunderway, hfirst⟩
          obtain rfl := Option.some.inj (hl₀.symm.trans hl₀')
          exact hlawful.failing_none hf₀ j
        · rw [(htouches l₀ l hlawful h).2, hf₀] at hf
          cases hf
    · have hidle := Lane.idle_fresh id text opened
      rw [(htouches _ l (.inl hidle) h).2, hidle.failing?_eq] at hf
      cases hf

/-- Every file has two references, and the calls for both fail once a gate is open. -/
def twoRefusals : Nat → Environment := fun _ =>
  .constant { fileReferences := ["b", "c"] } { gates := ["g"], outcome := .raised ⟨"OSError", "e"⟩ }

/-- A file is added and asked for, and both calls fail before anybody hears of it. -/
def refusedRun : List Action :=
  [.add "a" "", .resolve 0 "a", .tick, .tick, .tick, .release "g"] ++ List.replicate 6 .tick

end World

end DepGraph
