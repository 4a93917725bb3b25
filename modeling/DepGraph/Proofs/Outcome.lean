import DepGraph.Proofs.Merging
import DepGraph.Proofs.Resolution

/-!
# What a resolution comes to

* `Lane.Lawful` — a lane is idle, under way or closed: `World.lawful_run` says that every lane of
  every run is.
* `Lane.Closed.returned_iff` — a closed lane has returned if and only if every specifier, left
  alone, returns.
* `Lane.Closed.mappings` — and then it maps every text to what its last occurrence returns.
-/

set_option autoImplicit false

namespace DepGraph

namespace Lane

/-- The resolution was started, by the given resolver and for the given occurrences. -/
def Started (envs : Nat → Environment) (options : Options) (id : FileId) (resolver : Nat)
    (occurrences : List Occurrence) (l : Lane) : Prop :=
  Underway (envs resolver) options id resolver occurrences l ∨
    ∃ ending, Closed (envs resolver) options id resolver occurrences ending l

/-- Whatever happened, a lane is in one of its phases. -/
def Lawful (envs : Nat → Environment) (options : Options) (id : FileId) (l : Lane) : Prop :=
  l.Idle id ∨ ∃ resolver occurrences, Started envs options id resolver occurrences l

variable {envs : Nat → Environment} {options : Options} {id : FileId} {resolver : Nat}
  {occurrences : List Occurrence} {l l' : Lane} {a : Action}

theorem idle_fresh (id : FileId) (text : String) (opened : List Gate) :
    (Lane.fresh text opened).Idle id :=
  ⟨rfl, rfl, rfl, rfl, rfl, rfl, fun e he => by cases he⟩

theorem Started.stage_ne (h : Started envs options id resolver occurrences l) :
    l.record.cell.stage ≠ .unstarted := by
  rcases h with h | ⟨ending, h⟩
  · simp [h.stage]
  · simp [h.stage]

/-- What was started stays started, by the same resolver and for the same occurrences. -/
theorem Started.turn (h : Started envs options id resolver occurrences l)
    (registries : Nat → Registry) :
    Started envs options id resolver occurrences (l.turn id registries) := by
  rcases h with h | ⟨ending, h⟩
  · cases hnext : l.loop.next? with
    | none =>
      rw [Lane.turn_of_none hnext]
      exact .inl h
    | some p =>
      obtain ⟨job, loop⟩ := p
      exact (h.turn hnext registries).imp_left And.left
  · exact .inr ⟨ending, h.turn registries⟩

/-- A touch from outside ends no resolution. -/
theorem Touch.ended_iff {ending : Ending Fault Dependencies} (h : Touch envs options id a l l') :
    l'.record.cell.stage = .ended ending ↔ l.record.cell.stage = .ended ending := by
  cases h with
  | read => exact .rfl
  | start hs =>
    rw [hs]
    exact ⟨nofun, nofun⟩
  | join => exact .rfl
  | giveUp => exact Eq.congr_left (Cell.stage_settleWaiter _ _ _)
  | write => exact .rfl
  | release => exact .rfl

theorem Touches.ended_iff {ending : Ending Fault Dependencies}
    (h : Touches envs options id a l l') :
    l'.record.cell.stage = .ended ending ↔ l.record.cell.stage = .ended ending := by
  induction h with
  | refl => exact .rfl
  | tail _ htouch ih => exact htouch.ended_iff.trans ih

theorem Started.touch (h : Started envs options id resolver occurrences l)
    (ht : Touch envs options id a l l') : Started envs options id resolver occurrences l' := by
  rcases h with h | ⟨ending, h⟩
  · exact .inl (ht.underway h).1
  · exact .inr ⟨ending, ht.closed h⟩

theorem Lawful.turn (h : Lawful envs options id l) (registries : Nat → Registry) :
    Lawful envs options id (l.turn id registries) := by
  rcases h with h | ⟨resolver, occurrences, h⟩
  · rw [h.turn]
    exact .inl h
  · exact .inr ⟨resolver, occurrences, h.turn registries⟩

theorem Lawful.touch (h : Lawful envs options id l) (ht : Touch envs options id a l l') :
    Lawful envs options id l' := by
  rcases h with h | ⟨resolver, occurrences, h⟩
  · rcases ht.idle h with h' | ⟨k, found, notices, -, -, rfl⟩
    · exact .inl h'
    · exact .inr ⟨k, found.occurrences, .inl (h.start found)⟩
  · exact .inr ⟨resolver, occurrences, h.touch ht⟩

/-- A lane whose cell is unstarted is idle. -/
theorem Lawful.idle_of_unstarted (h : Lawful envs options id l)
    (hs : l.record.cell.stage = .unstarted) : l.Idle id := by
  rcases h with h | ⟨resolver, occurrences, h | ⟨ending, h⟩⟩
  · exact h
  · rw [h.stage] at hs
    cases hs
  · rw [h.stage] at hs
    cases hs

/-- A lane whose cell has ended is closed. -/
theorem Lawful.closed_of_ended {ending : Ending Fault Dependencies}
    (h : Lawful envs options id l) (hs : l.record.cell.stage = .ended ending) :
    ∃ resolver occurrences, Closed (envs resolver) options id resolver occurrences ending l := by
  rcases h with h | ⟨resolver, occurrences, h | ⟨ending', h⟩⟩
  · rw [h.stage] at hs
    cases hs
  · rw [h.stage] at hs
    cases hs
  · obtain rfl : ending' = ending := by
      rw [h.stage] at hs
      cases hs
      rfl
    exact ⟨resolver, occurrences, h⟩

/-- A file has dependencies if and only if its cell has them for a result. -/
theorem Lawful.dependencies_eq (h : Lawful envs options id l) :
    l.record.dependencies = l.record.cell.result? := by
  rcases h with h | ⟨resolver, occurrences, h | ⟨ending, h⟩⟩
  · simp [Cell.result?, h.stage, h.dependencies]
  · simp [Cell.result?, h.stage, h.dependencies]
  · cases ending <;> simp [Cell.result?, h.stage, h.dependencies, Ending.value?]

/-! ## The cell -/

/-- A turn of a file that is closed tells a waiter, or leaves the cell as it is. -/
theorem Closed.turn_cell {env : Environment} {ending : Ending Fault Dependencies}
    (h : Closed env options id resolver occurrences ending l) (registries : Nat → Registry) :
    (l.turn id registries).record.cell = l.record.cell ∨
      ∃ k, (l.turn id registries).record.cell = (l.record.cell.settleWaiter k ending).1 := by
  cases hnext : l.loop.next? with
  | none => exact .inl (by rw [Lane.turn_of_none hnext])
  | some p =>
    obtain ⟨job, loop⟩ := p
    rcases h.turn_cases hnext registries with ⟨k, rfl, hturn⟩ |
      ⟨_, _, _, _, _, rfl, -, -, -, -, -, hturn⟩
    · rw [hturn]
      exact .inr ⟨k, rfl⟩
    · rw [hturn]
      exact .inl rfl

/-- **What a turn does to the cell**: nothing, or the resolution ends, or it has ended and a waiter
is told. -/
theorem Lawful.turn_cell (h : Lawful envs options id l) (registries : Nat → Registry) :
    (l.turn id registries).record.cell = l.record.cell ∨
    (l.record.cell.stage = .inProgress ∧ ∃ ending,
      (l.turn id registries).record.cell = l.record.cell.finish ending) ∨
    ∃ ending k, l.record.cell.stage = .ended ending ∧
      (l.turn id registries).record.cell = (l.record.cell.settleWaiter k ending).1 := by
  rcases h with h | ⟨resolver, occurrences, h | ⟨ending, h⟩⟩
  · rw [h.turn]
    exact .inl rfl
  · cases hnext : l.loop.next? with
    | none => exact .inl (by rw [Lane.turn_of_none hnext])
    | some p =>
      obtain ⟨job, loop⟩ := p
      rcases h.turn_cases hnext registries with
        ⟨job, join, events, -, -, -, -, -, -, hturn⟩ | ⟨ending, -, -, hcell, -⟩
      · rw [hturn]
        exact .inl rfl
      · exact .inr (.inl ⟨h.stage, ending, hcell⟩)
  · rcases h.turn_cell registries with hcell | ⟨k, hcell⟩
    · exact .inl hcell
    · exact .inr (.inr ⟨ending, k, h.stage, hcell⟩)

/-! ## What a closed lane says -/

variable {env : Environment} {ending : Ending Fault Dependencies}

theorem outcomeOf_eq_returned {file : String} {registry : Registry}
    {verdict : Ending Fault (List (Option String))} {info : Dependencies}
    (h : outcomeOf file occurrences registry verdict = .returned info) :
    ∃ addresses, verdict = .returned addresses ∧
      info = Dependencies.build file ((occurrences.map (·.text)).zip addresses) registry := by
  cases verdict with
  | returned addresses =>
    cases h
    exact ⟨addresses, rfl, rfl⟩
  | raised fault => cases h
  | cancelled => cases h

/-- Where all specifiers have returned, each has what its script returns. -/
theorem returns_each {events : Nat → List Event} {loop : Loop JoinJob}
    {join : Join Event Fault (Option String)} {addresses : List (Option String)}
    (hover : Join.Over (World.scriptsOf env options id occurrences) events loop join)
    (hyields : Yields join (.returned addresses)) :
    addresses.length = occurrences.length ∧
      ∀ (i : Nat) (o : Occurrence), occurrences[i]? = some o → ∃ address,
        addresses[i]? = some address ∧
        join.members[i]? = some (.ended (.returned address)) ∧
        (Member.ended (.returned address)).OnCourse
          ((Policy.inquiry options id.name o).script env id i 0) (events i) := by
  have hlength : join.members.length = occurrences.length := by
    rw [hover.along.length]
    simp [World.scriptsOf]
  have hheard : join.tally.heard = addresses.map fun a => some (.returned a) := by
    rcases hyields with hv | ⟨hnil, hempty⟩
    · exact hover.sound.returned addresses hv
    · cases hempty
      have hlen := hover.accounts.length_eq
      rw [hnil] at hlen
      exact List.length_eq_zero_iff.mp hlen
  have hcount : addresses.length = occurrences.length := by
    have hlen := hover.accounts.length_eq
    rw [hheard, List.length_map] at hlen
    omega
  refine ⟨hcount, fun i o ho => ?_⟩
  have hi : i < occurrences.length := (List.getElem?_eq_some_iff.mp ho).1
  have ha : addresses[i]? = some addresses[i] := List.getElem?_eq_getElem (by omega)
  have hm := hover.accounts.heard_ended
    (show join.tally.heard[i]? = some (some (.returned addresses[i])) by rw [hheard]; simp [ha])
  obtain ⟨s, hs, hfollows⟩ := hover.along.member hm
  rw [World.getElem?_scriptsOf, ho, Option.map_some] at hs
  cases hs
  refine ⟨_, ha, hm, hfollows.resolve_right fun hcut => ?_⟩
  cases hcut.1

/-- **A closed lane has returned if and only if every specifier, left alone, returns.** -/
theorem Closed.returned_iff (h : Closed env options id resolver occurrences ending l) :
    ending.failure? = none ↔ ∀ (i : Nat) (o : Occurrence), occurrences[i]? = some o →
      ((Policy.inquiry options id.name o).script env id i 0).ending.failure? = none := by
  obtain ⟨join, events, verdict, registry, hwork, hover, hrecorded, hyields, rfl⟩ := h.finished
  rw [outcomeOf_failure]
  constructor
  · intro hnone i o ho
    obtain ⟨addresses, rfl⟩ := Ending.failure?_eq_none.mp hnone
    obtain ⟨address, -, -, hcourse⟩ := (returns_each hover hyields).2 i o ho
    rw [← hcourse.ending_eq]
    rfl
  · intro hall
    cases hf : verdict.failure? with
    | none => rfl
    | some failure =>
      rcases hyields with hv | ⟨-, rfl⟩
      · obtain ⟨i, s, e, hs, hm, hcourse, hfail⟩ := hover.blames verdict failure hv hf
        rw [World.getElem?_scriptsOf] at hs
        obtain ⟨o, ho, rfl⟩ := Option.map_eq_some_iff.mp hs
        have hreturned := hall i o ho
        rw [← hcourse.ending_eq, hfail] at hreturned
        cases hreturned
      · cases hf

/-- **What a closed lane returns** maps the distinct texts, in order of first occurrence, to what
the last occurrence of each returns when it is left alone. -/
theorem Closed.mappings {info : Dependencies}
    (h : Closed env options id resolver occurrences (.returned info) l) :
    info.mappings.map (·.1) = (occurrences.map (·.text)).eraseDups ∧
      ∀ (i : Nat) (o : Occurrence), occurrences[i]? = some o →
        (∀ (j : Nat) (o' : Occurrence), i < j → occurrences[j]? = some o' → o'.text ≠ o.text) →
        ∃ address, ((Policy.inquiry options id.name o).script env id i 0).ending =
            .returned address ∧ info.mappings.lookup o.text = some address := by
  obtain ⟨join, events, verdict, registry, hwork, hover, hrecorded, hyields, hending⟩ := h.finished
  obtain ⟨addresses, rfl, rfl⟩ := outcomeOf_eq_returned hending.symm
  obtain ⟨hcount, heach⟩ := returns_each hover hyields
  have hcount' : addresses.length = (occurrences.map (·.text)).length := by
    rw [List.length_map, hcount]
  refine ⟨?_, fun i o ho hlast => ?_⟩
  · refine (Dependencies.keys_merge _).trans ?_
    rw [List.map_fst_zip hcount'.ge]
  · obtain ⟨address, ha, -, hcourse⟩ := heach i o ho
    refine ⟨address, hcourse.ending_eq.symm, ?_⟩
    refine Dependencies.lookup_merge_zip hcount' (by simp [ho]) ha fun j text hj ht => ?_
    rw [List.getElem?_map, Option.map_eq_some_iff] at ht
    obtain ⟨o', ho', rfl⟩ := ht
    exact hlast j o' hj ho'

end Lane

namespace World

variable {env : Nat → Environment}

/-- **Every lane of every run is lawful.** -/
theorem lawful_run (options : Options) (libName : String) (registries : Nat → Registry)
    (actions : List Action) {id : FileId} {l : Lane}
    (hl : ((initial options libName registries).run env actions).lane? id = some l) :
    Lane.Lawful env options id l :=
  lane_run (fun text opened => .inl (Lane.idle_fresh id text opened))
    (fun _ registries h => h.turn registries) (fun _ _ _ ht h => h.touch ht) libName registries
    actions hl

/-- **A file whose resolution has ended is closed**, by the resolver that did its work and for the
occurrences that the work was on. -/
theorem closed_of_record {options : Options} {libName : String} {registries : Nat → Registry}
    {actions : List Action} {id : FileId} {r : Record} {work : Work}
    {ending : Ending Fault Dependencies}
    (hr : ((initial options libName registries).run env actions).store.record? id = some r)
    (hwork : r.work = some work) (hs : r.cell.stage = .ended ending) :
    ∃ l, Lane.Closed (env work.resolver) options id work.resolver work.occurrences ending l := by
  obtain ⟨resolver, occurrences, hclosed⟩ :=
    (lawful_run options libName registries actions (lane?_of_record? hr)).closed_of_ended hs
  obtain ⟨join, -, -, -, hwork', -⟩ := hclosed.finished
  obtain rfl := Option.some.inj (hwork.symm.trans hwork')
  exact ⟨_, hclosed⟩

/-- A record that is there shows whose work it holds, on what, and how far its cell is. -/
theorem exists_record {w : World} {id : FileId} {resolver : Nat} {occurrences : List Occurrence}
    {stage : Stage Fault Dependencies}
    (shown : (w.store.record? id).map
        (fun r => (r.work.map fun work => (work.resolver, work.occurrences), r.cell.stage)) =
      some (some (resolver, occurrences), stage)) :
    ∃ r work, w.store.record? id = some r ∧ r.work = some work ∧ work.resolver = resolver ∧
      work.occurrences = occurrences ∧ r.cell.stage = stage := by
  obtain ⟨r, hr, pair⟩ := Option.map_eq_some_iff.mp shown
  obtain ⟨started, hstage⟩ := Prod.mk.inj pair
  obtain ⟨work, hwork, pair⟩ := Option.map_eq_some_iff.mp started
  obtain ⟨hresolver, hoccurrences⟩ := Prod.mk.inj pair
  exact ⟨r, work, hr, hwork, hresolver, hoccurrences, hstage⟩

end World

end DepGraph
