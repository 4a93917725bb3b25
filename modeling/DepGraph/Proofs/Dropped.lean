import DepGraph.Proofs.AllOrNothing
import DepGraph.Proofs.Dealings

/-!
# Which waiters were cancelled

* `World.drops` — the waiters that an action cancels, and `World.Dropped` — those that were
  cancelled in the course of a run.
* `World.lane?_drops` — what a cancellation makes of the lane of a file: whoever is cancelled and
  has no outcome is left with that of a cancellation.
* `World.explained_run` — whoever has an outcome has that of the resolution, or was cancelled.
* `World.settled_of_dropped` — whoever was cancelled has an outcome.
-/

set_option autoImplicit false

namespace DepGraph

namespace World

/-- The waiters that an action cancels: one that is there and gives up, or those that a walk waits
for when it is cancelled. -/
def drops (w : World) : Action → List (FileId × Nat)
  | .giveUp id k =>
    if (w.store.record? id).any fun r => k < r.cell.waiters.length then [(id, k)] else []
  | .cancelWalk j =>
    match (w.walks[j]?).map Walk.phase with
    | some (.resolving waiters tally) => if tally.verdict.isSome then [] else waiters
    | _ => []
  | _ => []

/-- Waiter `k` of a file was cancelled in the course of a run. -/
def Dropped (env : Nat → Environment) (w : World) (actions : List Action) (id : FileId) (k : Nat) :
    Prop :=
  ∃ before a after, actions = before ++ a :: after ∧ (id, k) ∈ (w.run env before).drops a

end World

namespace Lane

variable {envs : Nat → Environment} {options : Options} {id : FileId} {l l' l'' : Lane} {a : Action}
  {gone : Nat → Option WalkRef → Prop} {given : List (FileId × Nat)}

/-- Waiters of a lane are cancelled: of these, whoever has no outcome is left with that of a
cancellation, and nothing else changes. -/
structure Drops (id : FileId) (given : List (FileId × Nat)) (l l' : Lane) : Prop where
  stage : l'.record.cell.stage = l.record.cell.stage
  waiters : ∀ k, l'.record.cell.waiters[k]? = (l.record.cell.waiters[k]?).map fun x =>
    if (id, k) ∈ given ∧ x.outcome = none then { x with outcome := some .cancelled } else x

/-- Where no waiter that is there is cancelled, nothing changes. -/
theorem Drops.of_none (h : ∀ k x, l.record.cell.waiters[k]? = some x → x.outcome = none →
    (id, k) ∉ given) : l.Drops id given l := by
  refine ⟨rfl, fun k => ?_⟩
  cases hx : l.record.cell.waiters[k]? with
  | none => rfl
  | some x =>
    by_cases hnone : x.outcome = none
    · simp [h k x hx hnone]
    · simp [hnone]

/-- One waiter after the other. -/
theorem Drops.cons {p : FileId × Nat} (h : l.Drops id [p] l') (h' : l'.Drops id given l'') :
    l.Drops id (p :: given) l'' := by
  refine ⟨h'.stage.trans h.stage, fun k => ?_⟩
  rw [h'.waiters, h.waiters, Option.map_map]
  congr 1
  funext x
  by_cases hp : (id, k) = p
  · by_cases hnone : x.outcome = none
    · simp [hp, hnone]
    · simp [hnone]
  · simp [hp]

theorem drops_giveUp (l : Lane) (id : FileId) (k : Nat) :
    l.Drops id [(id, k)] (l.setCell (l.record.cell.giveUp k).1) := by
  refine ⟨Cell.stage_settleWaiter _ _ _, fun j => ?_⟩
  refine (Cell.getElem?_settleWaiter _ _ _ _).trans ?_
  congr 1
  funext x
  simp

/-- Only whom it concerns, among those without an outcome, matters. -/
theorem Drops.congr {given' : List (FileId × Nat)} (h : l.Drops id given l')
    (hsame : ∀ k x, l.record.cell.waiters[k]? = some x → x.outcome = none →
      ((id, k) ∈ given ↔ (id, k) ∈ given')) : l.Drops id given' l' := by
  refine ⟨h.stage, fun k => ?_⟩
  rw [h.waiters]
  cases hx : l.record.cell.waiters[k]? with
  | none => rfl
  | some x =>
    by_cases hnone : x.outcome = none
    · simp [hsame k x hx hnone]
    · simp [hnone]

/-- Who is cancelled explains its outcome by that. -/
theorem Explained.drops (h : l.Explained gone) (hd : l.Drops id given l')
    (hgone : ∀ k listener, (id, k) ∈ given → gone k listener) : l'.Explained gone := by
  intro k x o hx ho
  rw [hd.waiters, Option.map_eq_some_iff] at hx
  obtain ⟨y, hy, rfl⟩ := hx
  rw [hd.stage]
  split at ho
  · rename_i hself
    rw [if_pos hself]
    exact .inr ⟨(Option.some.inj ho).symm, hgone k y.listener hself.1⟩
  · rename_i hother
    rw [if_neg hother]
    exact h k y o hy ho

theorem Explained.mono {gone' : Nat → Option WalkRef → Prop} (h : l.Explained gone)
    (hgone : ∀ k listener, gone k listener → gone' k listener) : l.Explained gone' :=
  fun k x o hx ho => (h k x o hx ho).imp_right fun ⟨hcancelled, hk⟩ => ⟨hcancelled, hgone k _ hk⟩

theorem Touches.explained (ht : Touches envs options id a l l') (h : l.Explained gone)
    (hnot : ∀ (l : Lane) k, ¬l.Cancels id a k) : l'.Explained gone := by
  induction ht with
  | refl => exact h
  | tail _ hstep ih => exact ih.touch hstep fun k _ hcancels _ => absurd hcancels (hnot _ k)

/-- Only a request or a walk asks for a file. -/
theorem Touches.idle (ht : Touches envs options id a l l') (h : l.Idle id)
    (hasks : ∀ k, a ≠ .resolve k id.name) (htick : a ≠ .tick) : l'.Idle id := by
  induction ht with
  | refl => exact h
  | tail _ hstep ih =>
    rcases hstep.idle ih with hidle | ⟨k, found, notices, -, hby | hby, -⟩
    · exact hidle
    · exact absurd hby (hasks k)
    · exact absurd hby htick

/-! ## Outcomes stay -/

variable {k : Nat}

theorem Lawful.settled_turn (hl : Lawful envs options id l) (h : l.record.cell.Settled k)
    (registries : Nat → Registry) : (l.turn id registries).record.cell.Settled k := by
  rcases hl.turn_cell registries with hcell | ⟨-, ending, hcell⟩ | ⟨ending, j, -, hcell⟩
  · rw [hcell]
    exact h
  · rw [hcell]
    exact h
  · rw [hcell]
    exact h.settleWaiter j ending

theorem Touch.settled (ht : Touch envs options id a l l') (h : l.record.cell.Settled k) :
    l'.record.cell.Settled k := by
  cases ht with
  | read => exact h
  | start => exact h
  | join listener => exact h.join listener
  | @giveUp waiter => exact h.settleWaiter waiter .cancelled
  | write => exact h
  | release => exact h

/-- Whoever is cancelled has an outcome. -/
theorem Drops.settled (h : l.Drops id given l') (hk : (id, k) ∈ given)
    {x : Waiter WalkRef Fault Dependencies} (hx : l.record.cell.waiters[k]? = some x) :
    l'.record.cell.Settled k := by
  have hafter := h.waiters k
  rw [hx, Option.map_some] at hafter
  cases ho : x.outcome with
  | none =>
    rw [if_pos ⟨hk, ho⟩] at hafter
    exact ⟨_, _, hafter, rfl⟩
  | some o =>
    rw [if_neg (by simp [ho])] at hafter
    exact ⟨_, _, hafter, ho⟩

end Lane

namespace World

variable {env : Nat → Environment} {w : World} {id : FileId} {l : Lane} {a : Action} {k : Nat}

/-! ## What a cancellation makes of a lane -/

theorem lane?_giveUps (hl : w.lane? id = some l) (given : List (FileId × Nat)) :
    ∃ l', (given.foldl (fun w p => w.giveUp p.1 p.2) w).lane? id = some l' ∧
      l.Drops id given l' := by
  induction given generalizing w l with
  | nil => exact ⟨l, hl, .of_none (by simp)⟩
  | cons p rest ih =>
    obtain ⟨other, waiter⟩ := p
    have hfirst := lane?_giveUp hl other waiter
    by_cases hid : other = id
    · subst hid
      rw [if_pos rfl] at hfirst
      obtain ⟨l', hl', hdrops⟩ := ih hfirst
      exact ⟨l', hl', (l.drops_giveUp other waiter).cons hdrops⟩
    · rw [if_neg hid] at hfirst
      obtain ⟨l', hl', hdrops⟩ := ih hfirst
      have hnone : l.Drops id [(other, waiter)] l := .of_none (by simp [Ne.symm hid])
      exact ⟨l', hl', hnone.cons hdrops⟩

theorem lane?_cancelWaiters (hl : w.lane? id = some l) (waiters : List (FileId × Nat))
    (tally : Tally Fault Dependencies) :
    ∃ l', (w.cancelWaiters waiters tally).1.lane? id = some l' ∧
      l.Drops id (if tally.verdict.isSome then [] else waiters) l' := by
  -- Whoever has an outcome already is passed over.
  have hpending : ∀ k x, l.record.cell.waiters[k]? = some x → x.outcome = none →
      ((id, k) ∈ waiters.filter (fun p => (w.outcome? p.1 p.2).isNone) ↔ (id, k) ∈ waiters) := by
    intro k x hx hnone
    simp [List.mem_filter, outcome?_of_lane hl, hx, hnone]
  unfold cancelWaiters
  by_cases hv : tally.verdict.isSome
  · simp only [hv, true_or, if_true]
    exact ⟨l, hl, .of_none (by simp)⟩
  · simp only [hv, Bool.false_eq_true, false_or, if_false]
    split
    · rename_i hnobody
      refine ⟨l, hl, Lane.Drops.congr (.of_none fun k x hx hnone => ?_) hpending⟩
      rw [List.isEmpty_iff.mp hnobody]
      exact List.not_mem_nil
    · obtain ⟨l', hl', hdrops⟩ := lane?_giveUps hl _
      exact ⟨l', hl', hdrops.congr hpending⟩

theorem lane?_cancelWalk (hl : w.lane? id = some l) (j : Nat) :
    ∃ l', (w.cancelWalk j).lane? id = some l' ∧ l.Drops id (w.drops (.cancelWalk j)) l' := by
  have hnobody : l.Drops id [] l := .of_none (by simp)
  unfold cancelWalk
  simp only [drops]
  cases hx : w.walks[j]? with
  | none => exact ⟨l, hl, hnobody⟩
  | some x =>
    simp only [Option.map_some]
    -- A walk that is only to stop later cancels nobody.
    have hstops : ∀ (w' : World) (taken : Bool),
        (if taken then w' else w'.modifyWalk j fun x => { x with stopping := true }).lane? id =
          w'.lane? id := by
      intro w' taken
      split
      · rfl
      · rfl
    rw [hstops]
    cases hp : x.phase with
    | starting => exact ⟨l, hl, hnobody⟩
    | fetching missing => exact ⟨l, ((aside_cancelFetches hx).lane? id).trans hl, hnobody⟩
    | resolving waiters tally => exact lane?_cancelWaiters hl waiters tally
    | finished => exact ⟨l, hl, hnobody⟩

/-- A waiter gives up, or a walk is cancelled. -/
def IsCancellation (a : Action) : Prop :=
  (∃ other waiter, a = .giveUp other waiter) ∨ ∃ j, a = .cancelWalk j

/-- **What a cancellation makes of the lane of a file.** -/
theorem lane?_drops (env : Nat → Environment) (hl : w.lane? id = some l) (ha : IsCancellation a) :
    ∃ l', (w.apply env a).lane? id = some l' ∧ l.Drops id (w.drops a) l' := by
  rcases ha with ⟨other, waiter, rfl⟩ | ⟨j, rfl⟩
  · obtain ⟨l', hl', hdrops⟩ := lane?_giveUps hl [(other, waiter)]
    refine ⟨l', hl', hdrops.congr fun k x hx _ => ?_⟩
    have hlt := (List.getElem?_eq_some_iff.mp hx).1
    -- Who gives up has to be there.
    by_cases hself : (id, k) = (other, waiter)
    · cases hself
      simp [drops, (lane?_eq_some.mp hl).1, hlt]
    · simp only [drops, List.mem_singleton, hself, false_iff]
      split
      · simpa using hself
      · simp
  · exact lane?_cancelWalk hl j

theorem isCancellation_of_drops (h : (id, k) ∈ w.drops a) : IsCancellation a := by
  cases a with
  | giveUp other waiter => exact .inl ⟨other, waiter, rfl⟩
  | cancelWalk j => exact .inr ⟨j, rfl⟩
  | _ => cases h

/-- Whoever is cancelled is there. -/
theorem waiter_of_drops (hw : w.Tidy) (h : (id, k) ∈ w.drops a) :
    ∃ l x, w.lane? id = some l ∧ l.record.cell.waiters[k]? = some x := by
  cases a with
  | giveUp other waiter =>
    simp only [drops] at h
    split at h
    · rename_i hthere
      cases List.mem_singleton.mp h
      cases hr : w.store.record? id with
      | none => simp [hr] at hthere
      | some r =>
        have hlt : k < r.cell.waiters.length := by simpa [hr] using hthere
        exact ⟨_, _, lane?_of_record? hr, List.getElem?_eq_getElem hlt⟩
    · cases h
  | cancelWalk j =>
    simp only [drops] at h
    split at h
    · rename_i waiters tally hphase
      obtain ⟨x, hx, hphase⟩ := Option.map_eq_some_iff.mp hphase
      split at h
      · cases h
      · obtain ⟨place, hplace⟩ := List.mem_iff_getElem?.mp h
        obtain ⟨r, y, hr, hy, -⟩ := (hw.walks j x hx).waiters hphase hplace
        exact ⟨_, y, lane?_of_record? hr, hy⟩
    · cases h
  | _ => cases h

/-! ## Runs -/

theorem Dropped.later {actions : List Action} (h : w.Dropped env actions id k) (a : Action) :
    w.Dropped env (actions ++ [a]) id k := by
  obtain ⟨before, b, after, rfl, hdrops⟩ := h
  exact ⟨before, b, after ++ [a], by simp, hdrops⟩

theorem Dropped.last {actions : List Action} (h : (id, k) ∈ (w.run env actions).drops a) :
    w.Dropped env (actions ++ [a]) id k :=
  ⟨actions, a, [], rfl, h⟩

/-- **Whoever has an outcome**, in any run, has that of the resolution, or was cancelled. -/
theorem explained_run (options : Options) (libName : String) (registries : Nat → Registry)
    (actions : List Action) {id : FileId} {l : Lane}
    (hl : ((initial options libName registries).run env actions).lane? id = some l) :
    l.Explained fun k _ => (initial options libName registries).Dropped env actions id k := by
  induction actions using List.reverseRec generalizing l with
  | nil =>
    have hl' : (initial options libName registries).lane? id = some l := hl
    rw [lane?_initial] at hl'
    cases hl'
  | append_singleton actions a ih =>
    have hfresh : ∀ {l : Lane} {gone}, l.Idle id → l.Explained gone := by
      intro l gone hidle k x o hx
      rw [hidle.waiters] at hx
      cases hx
    have hbefore : ∀ {l₀}, ((initial options libName registries).run env actions).lane? id =
        some l₀ →
        l₀.Explained fun k _ => (initial options libName registries).Dropped env (actions ++ [a]) id
          k := fun hl₀ => (ih hl₀).mono fun _ _ h => h.later a
    by_cases ha : IsCancellation a
    · rcases lane_concat options libName registries actions a hl with
        ⟨l₀, hl₀, -⟩ | ⟨-, text, opened, htouches⟩
      · obtain ⟨l', hl', hdrops⟩ := lane?_drops env hl₀ ha
        rw [run_concat] at hl
        obtain rfl := Option.some.inj (hl'.symm.trans hl)
        exact (hbefore hl₀).drops hdrops fun _ _ hk => .last hk
      · refine hfresh (htouches.idle (Lane.idle_fresh id text opened) ?_ ?_)
        · rintro k rfl
          rcases ha with ⟨_, _, h⟩ | ⟨_, h⟩ <;> cases h
        · rintro rfl
          rcases ha with ⟨_, _, h⟩ | ⟨_, h⟩ <;> cases h
    · have hnot : ∀ (l : Lane) k, ¬l.Cancels id a k := by
        rintro l k (rfl | ⟨j, _, _, rfl, -⟩)
        · exact ha (.inl ⟨_, _, rfl⟩)
        · exact ha (.inr ⟨_, rfl⟩)
      rcases lane_concat options libName registries actions a hl with
        ⟨l₀, hl₀, ⟨-, registries', rfl⟩ | htouches⟩ | ⟨-, text, opened, htouches⟩
      · exact (hbefore hl₀).turn (lawful_run options libName registries actions hl₀) registries'
      · exact htouches.explained (hbefore hl₀) hnot
      · exact htouches.explained (hfresh (Lane.idle_fresh id text opened)) hnot

/-- Whoever has an outcome has one from then on. -/
theorem settled_run (options : Options) (libName : String) (registries : Nat → Registry)
    (actions later : List Action) {id : FileId} {l l' : Lane} {k : Nat}
    (hl : ((initial options libName registries).run env actions).lane? id = some l)
    (h : l.record.cell.Settled k)
    (hl' : ((initial options libName registries).run env (actions ++ later)).lane? id = some l') :
    l'.record.cell.Settled k := by
  have htidy := tidy_initial options libName registries
  rw [run_append] at hl'
  exact (lane_run_of (P := fun l => l.Lawful env options id ∧ l.record.cell.Settled k)
    (fun _ registries h => ⟨h.1.turn registries, h.1.settled_turn h.2 registries⟩)
    (fun _ _ _ ht h => ⟨h.1.touch ht, ht.settled h.2⟩) (tidy_run env htidy _)
    (options_run htidy _) hl ⟨lawful_run options libName registries actions hl, h⟩ later hl').2

/-- **Whoever was cancelled has an outcome**, from then on. -/
theorem settled_of_dropped (options : Options) (libName : String) (registries : Nat → Registry)
    (actions : List Action) {id : FileId} {l : Lane} {k : Nat}
    (hl : ((initial options libName registries).run env actions).lane? id = some l)
    (h : (initial options libName registries).Dropped env actions id k) :
    l.record.cell.Settled k := by
  obtain ⟨before, a, after, rfl, hdrops⟩ := h
  have htidy := tidy_initial options libName registries
  obtain ⟨l₀, x, hl₀, hx⟩ := waiter_of_drops (tidy_run env htidy before) hdrops
  obtain ⟨l₁, hl₁, hafter⟩ := lane?_drops env hl₀ (isCancellation_of_drops hdrops)
  rw [← run_concat] at hl₁
  rw [show before ++ a :: after = (before ++ [a]) ++ after by simp] at hl
  exact settled_run options libName registries (before ++ [a]) after hl₁ (hafter.settled hdrops hx)
    hl

end World

end DepGraph
