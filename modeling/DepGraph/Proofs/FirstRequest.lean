import DepGraph.Proofs.Failures

/-!
# The first request for a file

The first who asks for a file starts its resolution, and nobody starts it again.

* `World.Receives` — an action asks a resolver for a file.
* `Lane.JustStarted` — an action has just started the resolution of a file.
* `World.first_request` — every resolution was started by one action, which asked a resolver for the
  file, and its text was read then.
* `World.read_once` — its text is never read again, and its work stays that of this resolver.
-/

set_option autoImplicit false

namespace DepGraph

/-- The action asks a resolver for a file: it is a request that finds the file, or carries out a job
of a walk that uses this resolver. -/
inductive World.Receives (w : World) (id : FileId) : Action → Nat → Prop
  | request {resolver : Nat} (h : w.store.current? id.name = some id) :
    Receives w id (.resolve resolver id.name) resolver
  | walk {k : Nat} {job : WalkJob} {loop : Loop Job} {x : Walk}
    (hnext : w.loop.next? = some (.walk k job, loop)) (hx : w.walks[k]? = some x) :
    Receives w id .tick x.resolver

namespace Lane

variable {envs : Nat → Environment} {options : Options} {id : FileId} {a : Action} {l l' : Lane}
  {resolver : Nat} {found : Extraction} {text : String}

/-- Nobody has asked for the file, and its text was not read. -/
def Untouched (id : FileId) (l : Lane) : Prop := l.Idle id ∧ l.log = []

/-- Action `a` has just started the resolution of the file, whose text was read once. -/
structure JustStarted (envs : Nat → Environment) (options : Options) (id : FileId) (a : Action)
    (resolver : Nat) (found : Extraction) (text : String) (l : Lane) : Prop where
  asked : a = .resolve resolver id.name ∨ a = .tick
  read : ∃ notices, (envs resolver).extract text = .ok (found, notices)
  unchanged : l.record.text = text
  stage : l.record.cell.stage = .inProgress
  work : l.record.work = some (World.workOf (envs resolver) options resolver id found)
  log : l.log = [.extracting id text]

theorem untouched_fresh (id : FileId) (text : String) (opened : List Gate) :
    (fresh text opened).Untouched id := ⟨idle_fresh id text opened, rfl⟩

/-- A touch from outside leaves a file untouched, or starts its resolution with the text it has. -/
theorem Touch.untouched (h : Touch envs options id a l l') (hl : l.Untouched id)
    (hloop : ∀ resolver name, a ≠ .resolveWithoutLoop resolver name)
    (hextract : ∀ k text, ∃ result, (envs k).extract text = .ok result) :
    l'.Untouched id ∧ (l'.record.text = l.record.text ∨ ∃ text, a = .setText id.name text) ∨
      ∃ resolver found, JustStarted envs options id a resolver found l.record.text l' := by
  rcases h.idle hl.1 with hidle | ⟨k, found, notices, he, hasked, rfl⟩
  · left
    cases h with
    | read _ h =>
      rcases h with ⟨k, name, rfl⟩ | ⟨k, cause, he⟩
      · exact absurd rfl (hloop k name)
      · obtain ⟨result, hok⟩ := hextract k l.record.text
        rw [he] at hok
        cases hok
    | start => cases hidle.stage
    | join _ hs => exact absurd hl.1.stage hs
    | giveUp => exact ⟨⟨hidle, hl.2⟩, .inl rfl⟩
    | write h => exact ⟨⟨hidle, hl.2⟩, .inr ⟨_, h⟩⟩
    | release => exact ⟨⟨hidle, hl.2⟩, .inl rfl⟩
  · refine .inr ⟨k, found, hasked, ⟨notices, he⟩, rfl, rfl, rfl, ?_⟩
    simp [Lane.start, hl.2]

/-- What the same action does besides leaves a resolution just started. -/
theorem Touch.justStarted (h : Touch envs options id a l l')
    (hl : JustStarted envs options id a resolver found text l) :
    JustStarted envs options id a resolver found text l' := by
  have hnot : ∀ {b : Action}, a = b → b = .resolve resolver id.name ∨ b = .tick := by
    rintro b rfl
    exact hl.asked
  cases h with
  | read hs =>
    rw [hl.stage] at hs
    cases hs
  | start hs =>
    rw [hl.stage] at hs
    cases hs
  | join => exact ⟨hl.asked, hl.read, hl.unchanged, hl.stage, hl.work, hl.log⟩
  | giveUp h =>
    rcases h with h | ⟨k, place, x, h, -⟩
    · simpa using hnot h
    · simpa using hnot h
  | write h => simpa using hnot h
  | release h => simpa using hnot h

/-- **One action** leaves an untouched file untouched, or starts its resolution. -/
theorem Touches.untouched (h : Touches envs options id a l l') (hl : l.Untouched id)
    (hloop : ∀ resolver name, a ≠ .resolveWithoutLoop resolver name)
    (hextract : ∀ k text, ∃ result, (envs k).extract text = .ok result) :
    l'.Untouched id ∧ (l'.record.text = l.record.text ∨ ∃ text, a = .setText id.name text) ∨
      ∃ resolver found, JustStarted envs options id a resolver found l.record.text l' := by
  induction h with
  | refl => exact .inl ⟨hl, .inl rfl⟩
  | tail _ htouch ih =>
    rcases ih with ⟨h, htext⟩ | ⟨resolver, found, h⟩
    · rcases htouch.untouched h hloop hextract with ⟨h', htext'⟩ | ⟨resolver, found, h'⟩
      · refine .inl ⟨h', ?_⟩
        rcases htext' with htext' | hset
        · rcases htext with htext | hset
          · exact .inl (htext'.trans htext)
          · exact .inr hset
        · exact .inr hset
      · rcases htext with htext | ⟨text, rfl⟩
        · exact .inr ⟨resolver, found, htext ▸ h'⟩
        · simpa using h'.asked
    · exact .inr ⟨resolver, found, htouch.justStarted h⟩

/-- Where only one resolver can read texts, it is this one that starts a resolution. -/
theorem Touches.resolver_of_extract (h : Touches envs options id a l l') (hl : l.Idle id)
    (honly : ∀ k text result, (envs k).extract text = .ok result → k = resolver) :
    l'.Idle id ∨ l'.record.cell.stage ≠ .unstarted ∧
      ∃ work, l'.record.work = some work ∧ work.resolver = resolver := by
  induction h with
  | refl => exact .inl hl
  | tail _ htouch ih =>
    rcases ih with h | ⟨hs, work, hwork, hresolver⟩
    · rcases htouch.idle h with h' | ⟨k, found, notices, he, -, rfl⟩
      · exact .inl h'
      · exact .inr ⟨Cell.begun_stage_ne _, _, rfl, honly _ _ _ he⟩
    · right
      cases htouch with
      | read hunstarted => exact absurd hunstarted hs
      | start hunstarted => exact absurd hunstarted hs
      | giveUp =>
        refine ⟨fun h => hs ?_, work, hwork, hresolver⟩
        exact (Cell.stage_settleWaiter _ _ _).symm.trans h
      | _ => exact ⟨hs, work, hwork, hresolver⟩

/-! ## Once started -/

/-- The resolution was started by the given resolver for the given occurrences, and the text was
read once. -/
def ReadOnce (envs : Nat → Environment) (options : Options) (id : FileId) (resolver : Nat)
    (occurrences : List Occurrence) (text : String) (l : Lane) : Prop :=
  Started envs options id resolver occurrences l ∧
    l.record.Logs (fun e => e.isReading id = false) ∧
    l.log.filter (Event.isReading id) = [.extracting id text]

variable {occurrences : List Occurrence}

theorem ReadOnce.turn (h : ReadOnce envs options id resolver occurrences text l)
    (registries : Nat → Registry) :
    ReadOnce envs options id resolver occurrences text (l.turn id registries) := by
  obtain ⟨hstarted, hlogs, hread⟩ := h
  refine ⟨hstarted.turn registries, ?_⟩
  unfold Lane.turn
  split
  · exact ⟨hlogs, hread⟩
  · rename_i job loop _
    obtain ⟨hevents, hafter⟩ := hlogs.perform (fun _ => rfl) (fun job => job) id.name registries
      loop job
    refine ⟨hafter, ?_⟩
    have hnone : (List.filter (Event.isOf id)
        (l.record.perform (fun job => job) id.name registries loop job).events).filter
          (Event.isReading id) = [] := by
      refine List.filter_eq_nil_iff.mpr fun e he => ?_
      simp [hevents e (List.mem_filter.mp he).1]
    rw [List.filter_append, hread, hnone, List.append_nil]

theorem ReadOnce.touch (h : ReadOnce envs options id resolver occurrences text l)
    (ht : Touch envs options id a l l') :
    ReadOnce envs options id resolver occurrences text l' := by
  obtain ⟨hstarted, hlogs, hread⟩ := h
  refine ⟨hstarted.touch ht, ?_⟩
  cases ht with
  | read hs => exact absurd hs hstarted.stage_ne
  | start hs => exact absurd hs hstarted.stage_ne
  | _ => exact ⟨hlogs, hread⟩

end Lane

namespace World

variable {env : Nat → Environment} {options : Options} {w : World} {id : FileId} {a : Action}
  {resolver : Nat} {found : Extraction} {text : String}

/-! ## Who asked -/

/-- An environment in which only one resolver can read texts. -/
def onlyReads (env : Nat → Environment) (resolver : Nat) (k : Nat) : Environment :=
  if k = resolver then env k else { env k with extract := fun _ => .error default }

theorem onlyReads_self (env : Nat → Environment) (resolver : Nat) :
    onlyReads env resolver resolver = env resolver := if_pos rfl

theorem eq_of_onlyReads {k : Nat} {result : Extraction × List Notice}
    (h : (onlyReads env resolver k).extract text = .ok result) : k = resolver := by
  unfold onlyReads at h
  split at h
  · assumption
  · cases h

/-- A walk uses its own resolver alone. -/
theorem tick_onlyReads {k : Nat} {job : WalkJob} {loop : Loop Job} {x : Walk}
    (hnext : w.loop.next? = some (.walk k job, loop)) (hx : w.walks[k]? = some x) :
    w.tick (onlyReads env x.resolver) = w.tick env := by
  simp [tick, hnext, perform, hx, onlyReads_self]

/-- **The action that starts a resolution asks the resolver that does the work.** -/
theorem receives_of_justStarted (hw : w.Tidy) (hbefore : ∀ l, w.lane? id = some l → l.Idle id)
    {l' : Lane} (hl' : (w.apply env a).lane? id = some l')
    (hjust : Lane.JustStarted env options id a resolver found text l') :
    w.Receives id a resolver := by
  have hchanged : (w.apply env a).lane? id ≠ w.lane? id := by
    intro hsame
    have hidle := (hbefore l' (hsame.symm.trans hl')).stage
    rw [hjust.stage] at hidle
    cases hidle
  rcases hjust.asked with rfl | rfl
  · by_contra hnot
    have hid : w.store.current? id.name ≠ some id := fun h => hnot (.request h)
    cases hl : w.lane? id with
    | some l => exact hchanged ((lane?_resolve_other (env resolver) w hl hid).trans hl.symm)
    | none =>
      have hkept := kept_resolve (env resolver) w resolver id.name none
      have hnone := (hkept.record?_none id).mpr (lane?_eq_none.mp hl)
      exact hchanged ((lane?_eq_none.mpr hnone).trans hl.symm)
  · rcases tick_cases env hw with ⟨_, h⟩ | ⟨other, job, loop, hnext, h⟩ | ⟨k, job, loop, hnext, h⟩
    · exact absurd (congrArg (·.lane? id) h) hchanged
    · refine absurd ((congrArg (·.lane? id) h).trans ?_) hchanged
      by_cases hid : other = id
      · subst hid
        cases hl : w.lane? other with
        | some l =>
          exact (lane?_performFile hnext hl).trans (congrArg some ((hbefore l hl).turn _))
        | none =>
          have hkept := store_performFile { w with loop } other job
          exact lane?_eq_none.mpr ((hkept.record?_none other).mpr (lane?_eq_none (w := w).mp hl))
      · exact lane?_performFile_other hw hnext hid
    · cases hx : w.walks[k]? with
      | none =>
        have htick : w.apply env .tick = { w with loop } := by
          simp [apply, tick, hnext, perform, performWalk, hx]
        exact absurd ((congrArg (·.lane? id) htick).trans (lane?_pop hnext rfl)) hchanged
      | some x =>
        -- The walk does the same where no other resolver can read texts.
        have htick : w.tick (onlyReads env x.resolver) = w.tick env := tick_onlyReads hnext hx
        have hmoves : Moves (onlyReads env x.resolver) .tick { w with loop } (w.tick env) := by
          rcases tick_cases (onlyReads env x.resolver) hw with
            ⟨hnone, -⟩ | ⟨other, job', loop', hnext', -⟩ | ⟨k', job', loop', hnext', h'⟩
          · rw [hnext] at hnone
            cases hnone
          · rw [hnext] at hnext'
            cases hnext'
          · rw [hnext] at hnext'
            cases hnext'
            exact htick ▸ h'
        have honly : ∀ {l₀ : Lane} {options : Options}, l₀.Idle id →
            Lane.Touches (onlyReads env x.resolver) options id .tick l₀ l' →
            resolver = x.resolver := by
          intro l₀ options hidle htouches
          rcases htouches.resolver_of_extract hidle fun _ _ _ => eq_of_onlyReads with
            h' | ⟨-, work, hwork, hresolver⟩
          · have hstage := h'.stage
            rw [hjust.stage] at hstage
            cases hstage
          · rw [hjust.work] at hwork
            cases hwork
            exact hresolver
        have hresolver : resolver = x.resolver := by
          rcases hmoves.lane_cases (tidy_pop hw hnext) hl' with
            ⟨l, hl, htouches⟩ | ⟨-, text, opened, htouches⟩
          · exact honly (hbefore l ((lane?_pop hnext rfl).symm.trans hl)) htouches
          · exact honly (Lane.idle_fresh id text opened) htouches
        exact hresolver ▸ .walk hnext hx

/-- **Every resolution was started by one action**: before it nobody had asked, and it asked the
resolver that does the work. -/
theorem first_request (options : Options) (libName : String) (registries : Nat → Registry)
    (actions : List Action) (hloop : ∀ resolver name, .resolveWithoutLoop resolver name ∉ actions)
    (hextract : ∀ k text, ∃ result, (env k).extract text = .ok result) {l : Lane}
    (hl : ((initial options libName registries).run env actions).lane? id = some l) :
    l.Untouched id ∨ ∃ before a after resolver found l₁, actions = before ++ a :: after ∧
      (∀ l₀, ((initial options libName registries).run env before).lane? id = some l₀ →
        l₀.Untouched id ∧ l₀.record.text = l₁.record.text) ∧
      ((initial options libName registries).run env (before ++ [a])).lane? id = some l₁ ∧
      Lane.JustStarted env options id a resolver found l₁.record.text l₁ ∧
      ((initial options libName registries).run env before).Receives id a resolver := by
  induction actions using List.reverseRec generalizing l with
  | nil =>
    have hl' : (initial options libName registries).lane? id = some l := hl
    rw [lane?_initial] at hl'
    cases hl'
  | append_singleton actions a ih =>
    have hw := tidy_run env (tidy_initial options libName registries) actions
    have hnow : ∀ resolver name, a ≠ .resolveWithoutLoop resolver name :=
      fun resolver name e => hloop resolver name (by simp [e])
    have hbegins : ∀ {l₀ resolver found}, l₀.Untouched id →
        (∀ l, ((initial options libName registries).run env actions).lane? id = some l → l = l₀) →
        Lane.JustStarted env options id a resolver found l₀.record.text l →
        ∃ before b after resolver found l₁, actions ++ [a] = before ++ b :: after ∧
          (∀ l₀, ((initial options libName registries).run env before).lane? id = some l₀ →
            l₀.Untouched id ∧ l₀.record.text = l₁.record.text) ∧
          ((initial options libName registries).run env (before ++ [b])).lane? id = some l₁ ∧
          Lane.JustStarted env options id b resolver found l₁.record.text l₁ ∧
          ((initial options libName registries).run env before).Receives id b resolver := by
      intro l₀ resolver found h₀ hsame hjust
      refine ⟨actions, a, [], resolver, found, l, rfl, fun l₁ hl₁ => ?_, hl, ?_, ?_⟩
      · obtain rfl := hsame l₁ hl₁
        exact ⟨h₀, hjust.unchanged.symm⟩
      · exact hjust.unchanged.symm ▸ hjust
      · rw [run_concat] at hl
        exact receives_of_justStarted hw (fun l₁ hl₁ => (hsame l₁ hl₁).symm ▸ h₀.1) hl hjust
    rcases lane_concat options libName registries actions a hl with
      ⟨l₀, hl₀, h⟩ | ⟨hnone, text, opened, h⟩
    · rcases ih (fun resolver name hmem => hloop resolver name (List.mem_append_left _ hmem))
        hl₀ with h₀ | ⟨before, b, after, resolver, found, l₁, rfl, hrest⟩
      · rcases h with ⟨-, registries', rfl⟩ | h
        · rw [h₀.1.turn]
          exact .inl h₀
        · rcases h.untouched h₀ hnow hextract with ⟨h, -⟩ | ⟨resolver, found, hjust⟩
          · exact .inl h
          · exact .inr (hbegins h₀ (fun l hl => Option.some.inj (hl.symm.trans hl₀)) hjust)
      · exact .inr ⟨before, b, after ++ [a], resolver, found, l₁, by simp, hrest⟩
    · have hfresh := Lane.untouched_fresh id text opened
      rcases h.untouched hfresh hnow hextract with ⟨h, -⟩ | ⟨resolver, found, hjust⟩
      · exact .inl h
      · refine .inr (hbegins hfresh (fun l hl => ?_) hjust)
        rw [hnone] at hl
        cases hl

/-- **From then on the text is not read again**, and the work stays that of this resolver. -/
theorem read_once (options : Options) (libName : String) (registries : Nat → Registry)
    {actions : List Action} {l : Lane}
    (hl : ((initial options libName registries).run env actions).lane? id = some l)
    (hjust : Lane.JustStarted env options id a resolver found text l) (later : List Action) :
    ∃ l', ((initial options libName registries).run env (actions ++ later)).lane? id = some l' ∧
      l'.ReadOnce env options id resolver found.occurrences text := by
  have hw := tidy_run env (tidy_initial options libName registries) actions
  have hoptions : ((initial options libName registries).run env actions).store.options = options :=
    options_run (tidy_initial options libName registries) actions
  have hstarted : l.Started env options id resolver found.occurrences := by
    rcases lawful_run options libName registries actions hl with
      hidle | ⟨resolver', occurrences', h | ⟨ending, h⟩⟩
    · have hstage := hidle.stage
      rw [hjust.stage] at hstage
      cases hstage
    · obtain ⟨join, events, hwork, -⟩ := h.running
      have hsame := hwork.symm.trans (hjust.work.trans (congrArg some (workOf_eq _ _ _ _ _)))
      simp only [Option.some.injEq, Work.mk.injEq] at hsame
      obtain ⟨rfl, rfl, -⟩ := hsame
      exact .inl h
    · have hstage := h.stage
      rw [hjust.stage] at hstage
      cases hstage
  have honce : l.ReadOnce env options id resolver found.occurrences text := by
    refine ⟨hstarted, fun work hwork => ?_, by simp [hjust.log, Event.isReading]⟩
    rw [hjust.work] at hwork
    cases hwork
    exact workOf_reads_nothing _ _ _ _ _ _
  obtain ⟨l', hl'⟩ := lane?_run_isSome hw hl later
  rw [run_append]
  exact ⟨l', hl', lane_run_of (fun _ registries h => h.turn registries)
    (fun _ _ _ ht h => h.touch ht) hw hoptions hl honce later hl'⟩

end World

end DepGraph
