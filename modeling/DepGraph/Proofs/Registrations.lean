import DepGraph.Proofs.FirstRequest
import DepGraph.Proofs.Refinement
import DepGraph.Proofs.Snapshots

/-!
# Registered declarations, and when they count

A registry may grow while a file is being resolved. What counts is what it holds at the job that
completes the resolution.

* `World.declarations` — what a list of actions registers with a resolver.
* `Record.perform_returned` — the job that completes a resolution reads the registry that there is
  then.
* `World.completing_tick` — every resolution that is done was completed by one tick.
* `World.dependencies_at_completion` — the list of a file is its direct dependencies and then what
  was registered by that tick, and it never changes.
-/

set_option autoImplicit false

namespace DepGraph

/-! ## The list of a file -/

/-- Each dependency is listed once: the direct ones are distinct, and what is registered besides is
none of them. -/
theorem Dependencies.nodup_list_build (file : String) (found : List (String × Option String))
    {registry : Registry} (h : registry.addresses.Nodup) :
    (build file found registry).list.Nodup := by
  refine List.nodup_append.mpr ⟨nodup_distinct _, h.filter _, ?_⟩
  rintro a ha b hb rfl
  simp only [registered, List.mem_filter, Bool.and_eq_true, Bool.not_eq_true',
    List.contains_eq_mem, decide_eq_false_iff_not] at hb
  exact hb.2.2 ha

/-! ## What completes a resolution -/

/-- A job that completes a resolution puts the dependencies together with what is registered
then. -/
theorem Record.perform_returned {J : Type} [DecidableEq J] {r : Record} {wrap : FileJob → J}
    {file : String} {registries : Nat → Registry} {loop : Loop J} {job : FileJob}
    {info : Dependencies} (hs : r.cell.stage = .inProgress)
    (h : (r.perform wrap file registries loop job).record.cell.stage = .ended (.returned info)) :
    ∃ work addresses, r.work = some work ∧
      info = Dependencies.build file ((work.occurrences.map (·.text)).zip addresses)
        (registries work.resolver) := by
  -- Every other job leaves the stage, or ends the resolution with a failure.
  unfold Record.perform at h
  split at h
  · rename_i waiter
    have htell : (r.cell.tell waiter).1.stage = r.cell.stage := by simp [Cell.tell, hs]
    rw [htell, hs] at h
    cases h
  · rename_i work hwork
    split at h
    · cases h
      exact ⟨work, [], hwork, rfl⟩
    · cases hs.symm.trans h
  · rename_i work hwork
    split at h
    · rename_i addresses _
      cases h
      exact ⟨work, addresses, hwork, rfl⟩
    · cases h
    · cases h
    · cases hs.symm.trans h
  · cases hs.symm.trans h
  · cases hs.symm.trans h

namespace World

variable {env : Nat → Environment} {w w' : World} {a : Action}

/-! ## What is registered in a run -/

/-- What a list of actions registers with a resolver, in order. -/
def declarations (resolver : Nat) (actions : List Action) : List String :=
  actions.filterMap fun
    | .register k address => if k = resolver then some address else none
    | _ => none

theorem mem_declarations {resolver : Nat} {actions : List Action} {address : String} :
    address ∈ declarations resolver actions ↔ .register resolver address ∈ actions := by
  simp only [declarations, List.mem_filterMap]
  constructor
  · rintro ⟨b, hb, h⟩
    split at h
    · split at h
      · rename_i k address' hk
        subst hk
        cases h
        exact hb
      · cases h
    · cases h
  · exact fun h => ⟨_, h, if_pos rfl⟩

theorem registries_alert (w : World) (listener : Option WalkRef) :
    (w.alert listener).registries = w.registries := by
  cases listener <;> rfl

/-- Only a registration changes what is registered. -/
theorem Moves.registries (h : Moves env a w w') (ha : ∀ resolver address,
    a ≠ .register resolver address) : w'.registries = w.registries := by
  induction h with
  | refl => rfl
  | @tail w₁ w₂ _ hmove ih =>
    refine Eq.trans ?_ ih
    cases hmove with
    | aside h => exact h.registries
    | add name text =>
      unfold add
      split <;> rfl
    | setText =>
      unfold setText
      split <;> rfl
    | register h => exact absurd h (ha _ _)
    | release => rfl
    | @ask resolver name listener _ =>
      rcases resolve_spec (env resolver) w₁ resolver name listener with
        ⟨_, h⟩ | ⟨_, _, _, _, ⟨_, _, _, h⟩ | ⟨_, _, _, _, h⟩ | ⟨_, h⟩⟩ <;> rw [h] <;> rfl
    | @askWithoutLoop resolver name _ =>
      rcases resolveWithoutLoop_spec (env resolver) w₁ name none with
        ⟨_, h⟩ | ⟨_, _, _, _, ⟨_, _, _, h⟩ | ⟨_, _, _, _, h⟩ | ⟨_, h⟩⟩ <;> rw [h] <;> rfl
    | giveUp =>
      unfold giveUp
      split
      · rfl
      · exact registries_alert _ _

theorem registries_performFile (w : World) (id : FileId) (job : FileJob) :
    (w.performFile id job).registries = w.registries := by
  unfold performFile
  split
  · rfl
  · exact registries_alert _ _

theorem registries_apply (hw : w.Tidy) (a : Action) (resolver : Nat) :
    (w.apply env a).registries resolver =
      (w.registries resolver).registerAll (declarations resolver [a]) := by
  by_cases hregister : ∃ k address, a = .register k address
  · obtain ⟨k, address, rfl⟩ := hregister
    by_cases hk : k = resolver
    · subst hk
      simp [apply, register, note, record, declarations, Registry.registerAll]
    · simp [apply, register, note, record, declarations, Registry.registerAll, hk, Ne.symm hk]
  · have hnot : ∀ k address, a ≠ .register k address := fun k address h =>
      hregister ⟨k, address, h⟩
    have hnone : declarations resolver [a] = [] := by
      refine List.eq_nil_iff_forall_not_mem.mpr fun address h => ?_
      exact hnot resolver address (List.mem_singleton.mp (mem_declarations.mp h)).symm
    rw [hnone]
    refine congrFun ?_ resolver
    by_cases ha : a = .tick
    · subst ha
      change (w.tick env).registries = w.registries
      rcases tick_cases env hw with ⟨_, h⟩ | ⟨id, job, loop, _, h⟩ | ⟨k, job, loop, _, h⟩
      · rw [h]
      · rw [h]
        exact registries_performFile { w with loop } id job
      · exact (Moves.registries h hnot).trans rfl
    · exact Moves.registries (apply_moves hw.walks ha) hnot

/-- **What is registered after a run** was there before it or was registered in it. -/
theorem registries_run (env : Nat → Environment) (hw : w.Tidy) (actions : List Action)
    (resolver : Nat) :
    (w.run env actions).registries resolver =
      (w.registries resolver).registerAll (declarations resolver actions) := by
  induction actions generalizing w with
  | nil => rfl
  | cons a rest ih =>
    have hsplit : declarations resolver (a :: rest) =
        declarations resolver [a] ++ declarations resolver rest :=
      show ([a] ++ rest).filterMap _ = _ from List.filterMap_append
    rw [hsplit, Registry.registerAll_append, ← registries_apply hw a resolver]
    exact ih (tidy_apply env hw a)

/-! ## The tick that completes a resolution -/

/-- **Every resolution that is done was completed by one tick**, with what was registered then. -/
theorem completing_tick (options : Options) (libName : String) (registries : Nat → Registry)
    (actions : List Action) {id : FileId} {l : Lane} {info : Dependencies}
    (hl : ((initial options libName registries).run env actions).lane? id = some l)
    (hdone : l.record.cell.stage = .ended (.returned info)) :
    ∃ before after l₀ l₁ work addresses, actions = before ++ .tick :: after ∧
      ((initial options libName registries).run env before).lane? id = some l₀ ∧
      l₀.record.cell.stage = .inProgress ∧ l₀.record.work = some work ∧
      ((initial options libName registries).run env (before ++ [.tick])).lane? id = some l₁ ∧
      l₁.record.cell.stage = .ended (.returned info) ∧
      info = Dependencies.build id.name ((work.occurrences.map (·.text)).zip addresses)
        (((initial options libName registries).run env before).registries work.resolver) := by
  induction actions using List.reverseRec generalizing l with
  | nil =>
    have hl' : (initial options libName registries).lane? id = some l := hl
    rw [lane?_initial] at hl'
    cases hl'
  | append_singleton actions a ih =>
    have hw := tidy_run env (tidy_initial options libName registries) actions
    have hearlier : ∀ {l₀ : Lane},
        ((initial options libName registries).run env actions).lane? id = some l₀ →
        l₀.record.cell.stage = .ended (.returned info) →
        ∃ before after l₀ l₁ work addresses, actions ++ [a] = before ++ .tick :: after ∧
          ((initial options libName registries).run env before).lane? id = some l₀ ∧
          l₀.record.cell.stage = .inProgress ∧ l₀.record.work = some work ∧
          ((initial options libName registries).run env (before ++ [.tick])).lane? id = some l₁ ∧
          l₁.record.cell.stage = .ended (.returned info) ∧
          info = Dependencies.build id.name ((work.occurrences.map (·.text)).zip addresses)
            (((initial options libName registries).run env before).registries work.resolver) := by
      intro l₀ hl₀ hdone₀
      obtain ⟨before, after, l₀, l₁, work, addresses, rfl, hrest⟩ := ih hl₀ hdone₀
      exact ⟨before, after ++ [a], l₀, l₁, work, addresses, by simp, hrest⟩
    have hconcat := hl
    rw [run_concat] at hconcat
    rcases lane_apply_cases hw hconcat with ⟨l₀, hl₀⟩ | ⟨_, text, opened, h⟩
    · obtain ⟨l₁, hl₁, h⟩ := lane_apply env hw hl₀ a
      obtain rfl := Option.some.inj (hl₁.symm.trans hconcat)
      have hlawful := lawful_run options libName registries actions hl₀
      rcases h with ⟨rfl, -, hturn⟩ | h
      · rcases hlawful.turn_cell
          (((initial options libName registries).run env actions).registries) with
          hcell | ⟨hstage, -⟩ | ⟨ending, k, hstage, hcell⟩
        · exact hearlier hl₀ (by rw [← hcell, ← hturn, hdone])
        · cases hnext : l₀.loop.next? with
          | none =>
            have hsame : l₁ = l₀ := hturn.trans (Lane.turn_of_none hnext _ _)
            exact hearlier hl₀ (hsame ▸ hdone)
          | some p =>
            obtain ⟨job, loop⟩ := p
            have hperformed := hdone
            rw [hturn, Lane.turn_eq hnext] at hperformed
            obtain ⟨work, addresses, hwork, hinfo⟩ := Record.perform_returned hstage hperformed
            exact ⟨actions, [], l₀, l₁, work, addresses, rfl, hl₀, hstage, hwork, hl, hdone, hinfo⟩
        · refine hearlier hl₀ ?_
          rw [hturn, hcell, Cell.stage_settleWaiter] at hdone
          exact hdone
      · exact hearlier hl₀ (h.ended_iff.mp hdone)
    · exact absurd (h.ended_iff.mp hdone) nofun

/-- A resolution that is done stays so, with the same dependencies. -/
theorem done_run (options : Options) (libName : String) (registries : Nat → Registry)
    (actions : List Action) {id : FileId} {r : Record} {info : Dependencies}
    (hr : ((initial options libName registries).run env actions).store.record? id = some r)
    (hdone : r.cell.stage = .ended (.returned info)) (later : List Action) :
    ∃ r', ((initial options libName registries).run env (actions ++ later)).store.record? id =
        some r' ∧ r'.cell.stage = .ended (.returned info) ∧ r'.dependencies = some info := by
  have hl := lane?_of_record? hr
  have hw := tidy_run env (tidy_initial options libName registries) actions
  obtain ⟨resolver, occurrences, hclosed⟩ :=
    (lawful_run options libName registries actions hl).closed_of_ended hdone
  obtain ⟨l', hl'⟩ := lane?_run_isSome hw hl later
  have hclosed' := lane_run_of (fun _ registries h => h.turn registries)
    (fun _ _ _ ht h => ht.closed h) hw (options_run (tidy_initial options libName registries) _) hl
    hclosed later hl'
  rw [run_append]
  exact ⟨l'.record, (lane?_eq_some.mp hl').1, hclosed'.stage, hclosed'.dependencies⟩

/-- A world in which declarations were registered and nothing else has happened. -/
def declaring (options : Options) (libName : String) (declared : Nat → List String) : World :=
  initial options libName fun resolver => Registry.empty.registerAll (declared resolver)

/-- **What a file depends on, and when that is decided.** A resolution that is done was completed by
one tick. The list of the file is the distinct checkable addresses among those that its specifiers
map to, in order of first occurrence, and then what the registry of its resolver held at that tick,
in order of registration, without the file itself and without the former. So nothing is listed
twice, whatever was registered before that tick is listed unless it is the file itself, and nothing
that happens later changes the dependencies. -/
theorem dependencies_at_completion (env : Nat → Environment) (options : Options) (libName : String)
    (declared : Nat → List String) (actions : List Action) {id : FileId} {r : Record}
    {info : Dependencies}
    (hr : ((declaring options libName declared).run env actions).store.record? id = some r)
    (hdone : r.cell.stage = .ended (.returned info)) :
    r.dependencies = some info ∧
    (∃ before after r₀ r₁ work, actions = before ++ .tick :: after ∧
      ((declaring options libName declared).run env before).store.record? id = some r₀ ∧
      r₀.cell.stage = .inProgress ∧ r₀.work = some work ∧
      ((declaring options libName declared).run env (before ++ [.tick])).store.record? id =
        some r₁ ∧ r₁.cell.stage = .ended (.returned info) ∧
      ∃ direct registered,
        direct = ((info.mappings.filterMap (·.2)).filter Name.isSource).eraseDups ∧
        registered =
          (((declaring options libName declared).run env before).registries
            work.resolver).addresses ∧
        registered = (declared work.resolver ++ declarations work.resolver before).eraseDups ∧
        info.list = direct ++ registered.filter (fun a => a ≠ id.name ∧ a ∉ direct) ∧
        ∀ address, address ∈ declared work.resolver ∨ .register work.resolver address ∈ before →
          address ∈ info.list ∨ address = id.name ∧ address ∉ direct) ∧
    info.list.Nodup ∧
    ∀ later, ∃ r', ((declaring options libName declared).run env (actions ++ later)).store.record?
        id = some r' ∧ r'.cell.stage = .ended (.returned info) ∧ r'.dependencies = some info := by
  have hstays := done_run options libName _ actions hr hdone
  refine ⟨?_, ?_⟩
  · obtain ⟨r', hr', -, hinfo⟩ := hstays []
    rw [List.append_nil] at hr'
    obtain rfl := Option.some.inj (hr.symm.trans hr')
    exact hinfo
  obtain ⟨before, after, l₀, l₁, work, addresses, hsplit, hl₀, hstage, hwork, hl₁, hdone₁, hinfo⟩ :=
    completing_tick options libName _ actions (lane?_of_record? hr) hdone
  have hregistered : (((declaring options libName declared).run env before).registries
      work.resolver).addresses =
        (declared work.resolver ++ declarations work.resolver before).eraseDups := by
    have hrun := registries_run env (tidy_initial options libName
      fun resolver => Registry.empty.registerAll (declared resolver)) before work.resolver
    rw [declaring, hrun, initial, ← Registry.registerAll_append,
      Registry.addresses_registerAll_empty]
  have hlist : info.list = Dependencies.direct info.mappings ++
      (declared work.resolver ++ declarations work.resolver before).eraseDups.filter
        (fun a => a ≠ id.name ∧ a ∉ Dependencies.direct info.mappings) := by
    rw [← hregistered, hinfo]
    simp [Dependencies.build, Dependencies.registered, declaring]
  have hdirect : Dependencies.direct info.mappings =
      ((info.mappings.filterMap (·.2)).filter Name.isSource).eraseDups := Dependencies.distinct_eq _
  refine ⟨⟨before, after, l₀.record, l₁.record, work, hsplit, (lane?_eq_some.mp hl₀).1, hstage,
    hwork, (lane?_eq_some.mp hl₁).1, hdone₁, Dependencies.direct info.mappings, _, hdirect, rfl,
    hregistered, hregistered ▸ hlist, fun address haddress => ?_⟩, ?_, hstays⟩
  · by_cases hmem : address ∈ Dependencies.direct info.mappings
    · exact .inl (hlist ▸ List.mem_append_left _ hmem)
    by_cases hself : address = id.name
    · exact .inr ⟨hself, hmem⟩
    · left
      rw [hlist]
      refine List.mem_append_right _ (List.mem_filter.mpr ⟨?_, by simp [hself, hmem]⟩)
      rw [List.mem_eraseDups, List.mem_append, mem_declarations]
      exact haddress
  · rw [hinfo]
    refine Dependencies.nodup_list_build _ _ ?_
    change (((declaring options libName declared).run env before).registries
      work.resolver).addresses.Nodup
    rw [hregistered]
    exact Dependencies.nodup_eraseDups _

/-- While a file waits for its one address, that address, the file itself and another one are
registered; one more is registered after the end. -/
def registeringRun : List Action :=
  [.add "a" "", .resolve 0 "a", .register 0 "b.ts", .register 0 "a", .register 0 "lib.d.ts", .tick,
    .release "g"] ++ List.replicate 4 .tick ++ [.register 0 "late.d.ts"]

theorem dependencies_at_completion_registering :
    ∃ before after r₀ work, registeringRun = before ++ .tick :: after ∧
      ((declaring {} defaultLibName fun _ => []).run oneReference before).store.record?
        ⟨"a", 0⟩ = some r₀ ∧ r₀.work = some work ∧
      ∀ address, .register work.resolver address ∈ before →
        address = "b.ts" ∨ address = "lib.d.ts" ∨ address = "a" := by
  obtain ⟨r, hr, hdone⟩ : ∃ r, ((declaring {} defaultLibName fun _ => []).run oneReference
      registeringRun).store.record? ⟨"a", 0⟩ = some r ∧
      r.cell.stage = .ended (.returned ⟨[("b", some "b.ts")], ["b.ts", "lib.d.ts"]⟩) :=
    ⟨_, rfl, by decide +kernel⟩
  obtain ⟨-, ⟨before, after, r₀, -, work, hsplit, hr₀, -, hwork, -, -, direct, registered, -, -, -,
      -, hlisted⟩, -, -⟩ :=
    dependencies_at_completion oneReference {} defaultLibName (fun _ => []) registeringRun hr hdone
  refine ⟨before, after, r₀, work, hsplit, hr₀, hwork, fun address haddress => ?_⟩
  rcases hlisted address (.inr haddress) with h | ⟨h, -⟩
  · rcases List.mem_cons.mp h with h | h
    · exact .inl h
    · exact .inr (.inl (List.mem_singleton.mp h))
  · exact .inr (.inr h)

end World

end DepGraph
