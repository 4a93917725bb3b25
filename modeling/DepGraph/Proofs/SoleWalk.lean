import DepGraph.Proofs.BreadthFirst
import DepGraph.Proofs.Closure
import DepGraph.Proofs.Registrations

/-!
# What a walk on its own resolves files to

Where nothing happens but that jobs are carried out and gates open, and all walks use one resolver,
every resolution is the work of that resolver on the text with which the file was added.

* `Action.IsPassing` — time passes, and nobody asks for anything.
* `World.resolvers` — the resolvers of the walks, which stay as they are; `World.run_onlyReads` —
  so nobody else reads texts.
* `Lane.ReadBy` — a resolution was started by the given resolver with the text of the file.
* `Answers.dependencies` — the dependencies of a file when every call is answered at once.
* `World.done_as_answered` — what a resolution that is done has come to.
-/

set_option autoImplicit false

namespace DepGraph

/-- Time passes: the job that is due first is carried out, or a gate opens. -/
def Action.IsPassing (a : Action) : Prop := a = .tick ∨ ∃ gate, a = .release gate

namespace World

variable {env : Nat → Environment} {w : World} {k resolver : Nat} {x : Walk}

/-! ## Whose walks -/

/-- The resolvers of the walks, in order. -/
def resolvers (w : World) : List Nat := w.walks.map Walk.resolver

theorem resolvers_modifyWalk (w : World) (k : Nat) {change : Walk → Walk}
    (h : ∀ x, w.walks[k]? = some x → (change x).resolver = x.resolver) :
    (w.modifyWalk k change).resolvers = w.resolvers :=
  map_walks_modifyWalk w k h

theorem frames_resolvers (k : Nat) : Frames k fun w w' => w'.resolvers = w.resolvers where
  refl _ := rfl
  trans h h' := h'.trans h
  ask env resolver w name _ := congrArg (List.map _) (walks_resolve env w resolver name _)
  note _ _ := rfl
  modifyWalk w _ h := resolvers_modifyWalk w k h
  post _ _ := rfl
  fetch _ _ _ := rfl

theorem resolvers_performWalk (env : Environment) (w : World) (k : Nat) (job : WalkJob) :
    (w.performWalk env k job).resolvers = w.resolvers :=
  (frames_resolvers k).performWalk env w job
    (fun _ _ _ _ w name text => congrArg (List.map _) (walks_add w name text)) fun _ _ _ _ => rfl

/-- As time passes, the walks and their resolvers stay. -/
theorem resolvers_apply (env : Nat → Environment) (w : World) {a : Action} (ha : a.IsPassing) :
    (w.apply env a).resolvers = w.resolvers := by
  rcases ha with rfl | ⟨gate, rfl⟩
  · simp only [apply, tick]
    split
    · rfl
    · rename_i job loop _
      cases job with
      | file id job =>
        exact congrArg (List.map Walk.resolver) (walks_performFile { w with loop } id job)
      | walk k job => exact resolvers_performWalk _ { w with loop } k job
  · rfl

theorem resolvers_run (env : Nat → Environment) (w : World) {actions : List Action}
    (ha : ∀ a ∈ actions, a.IsPassing) : (w.run env actions).resolvers = w.resolvers := by
  induction actions generalizing w with
  | nil => rfl
  | cons a rest ih =>
    refine (ih (w.apply env a) fun b hb => ha b (List.mem_cons_of_mem _ hb)).trans ?_
    exact resolvers_apply env w (ha a List.mem_cons_self)

/-- Where all walks use one resolver, nobody else needs to read texts. -/
theorem apply_onlyReads (env : Nat → Environment) (hw : ∀ k ∈ w.resolvers, k = resolver)
    {a : Action} (ha : a.IsPassing) : w.apply (onlyReads env resolver) a = w.apply env a := by
  rcases ha with rfl | ⟨gate, rfl⟩
  · simp only [apply, tick]
    split
    · rfl
    · rename_i job loop _
      cases job with
      | file id job => rfl
      | walk k job =>
        cases hx : w.walks[k]? with
        | none => simp [perform, performWalk, hx]
        | some x =>
          have hres : x.resolver = resolver :=
            hw x.resolver (List.mem_map_of_mem (List.mem_of_getElem? hx))
          simp [perform, hx, hres, onlyReads_self]
  · rfl

theorem run_onlyReads (env : Nat → Environment) (hw : ∀ k ∈ w.resolvers, k = resolver)
    {actions : List Action} (ha : ∀ a ∈ actions, a.IsPassing) :
    w.run (onlyReads env resolver) actions = w.run env actions := by
  induction actions generalizing w with
  | nil => rfl
  | cons a rest ih =>
    have hfirst := ha a List.mem_cons_self
    have hrest := ih (w := w.apply env a) (by rwa [resolvers_apply env w hfirst])
      fun b hb => ha b (List.mem_cons_of_mem _ hb)
    rw [← apply_onlyReads env hw hfirst] at hrest
    exact hrest.trans (congrArg (·.run env rest) (apply_onlyReads env hw hfirst))

end World

/-! ## Who started a resolution, and with which text -/

namespace Lane

variable {envs : Nat → Environment} {options : Options} {id : FileId} {a : Action} {l l' : Lane}
  {resolver : Nat}

/-- The file is idle, or the given resolver has started its resolution with the text it has. -/
def ReadBy (envs : Nat → Environment) (options : Options) (id : FileId) (resolver : Nat)
    (l : Lane) : Prop :=
  l.Idle id ∨ ∃ found notices, (envs resolver).extract l.record.text = .ok (found, notices) ∧
    Started envs options id resolver found.occurrences l

theorem text_turn (l : Lane) (id : FileId) (registries : Nat → Registry) :
    (l.turn id registries).record.text = l.record.text := by
  unfold turn
  split
  · rfl
  · exact World.text_perform _ _ _ _ _ _

theorem ReadBy.turn (h : ReadBy envs options id resolver l) (registries : Nat → Registry) :
    ReadBy envs options id resolver (l.turn id registries) := by
  rcases h with h | ⟨found, notices, he, h⟩
  · rw [h.turn]
    exact .inl h
  · exact .inr ⟨found, notices, (l.text_turn id registries).symm ▸ he, h.turn registries⟩

/-- A touch changes the text only by writing it. -/
theorem Touch.text (h : Touch envs options id a l l') (ha : ∀ name text, a ≠ .setText name text) :
    l'.record.text = l.record.text := by
  cases h with
  | write h => exact absurd h (ha _ _)
  | _ => rfl

theorem ReadBy.touch (h : ReadBy envs options id resolver l) (ht : Touch envs options id a l l')
    (honly : ∀ k text result, (envs k).extract text = .ok result → k = resolver)
    (ha : ∀ name text, a ≠ .setText name text) : ReadBy envs options id resolver l' := by
  have htext := ht.text ha
  rcases h with h | ⟨found, notices, he, h⟩
  · rcases ht.idle h with h' | ⟨k, found, notices, he, -, rfl⟩
    · exact .inl h'
    · obtain rfl := honly _ _ _ he
      exact .inr ⟨found, notices, he, .inl (h.start found)⟩
  · exact .inr ⟨found, notices, htext.symm ▸ he, h.touch ht⟩

end Lane

/-! ## What the files depend on -/

namespace Answers

/-- The addresses of all occurrences, every call being answered at once; there are none if one of
the occurrences fails. -/
def addresses (answers : Answers) (options : Options) (file : String)
    (occurrences : List Occurrence) : Option (List (Option String)) :=
  Tally.values? (occurrences.map fun o =>
    some (answers.evaluate file (Policy.inquiry options file o)))

/-- The dependencies of a file with the given specifiers, every call being answered at once. -/
def dependencies (answers : Answers) (options : Options) (file : String)
    (occurrences : List Occurrence) (registry : Registry) : Option Dependencies :=
  (answers.addresses options file occurrences).map fun addresses =>
    Dependencies.build file ((occurrences.map (·.text)).zip addresses) registry

end Answers

/-- The mappings and the registry settle the dependencies of a file. -/
theorem Dependencies.build_eq {file : String} {found found' : List (String × Option String)}
    {registry registry' : Registry} (h : build file found registry = build file found' registry') :
    build file found registry = build file found' registry := by
  have hmappings : merge found = merge found' := congrArg mappings h
  simp only [build, hmappings]

/-- What a closed lane has returned is what its specifiers come to with every call answered at
once. -/
theorem Lane.Closed.addresses {env : Environment} {answers : Answers} (hgives : env.Gives answers)
    {options : Options} {id : FileId} {resolver : Nat} {occurrences : List Occurrence}
    {info : Dependencies} {l : Lane}
    (h : Closed env options id resolver occurrences (.returned info) l) :
    ∃ addresses registry, answers.addresses options id.name occurrences = some addresses ∧
      info = Dependencies.build id.name ((occurrences.map (·.text)).zip addresses) registry := by
  obtain ⟨join, events, verdict, registry, -, hover, -, hyields, hending⟩ := h.finished
  obtain ⟨addresses, rfl, hinfo⟩ := outcomeOf_eq_returned hending.symm
  refine ⟨addresses, registry, ?_, hinfo⟩
  obtain ⟨hlength, heach⟩ := returns_each hover hyields
  refine Tally.values?_eq_some.mpr (List.ext_getElem? fun i => ?_)
  simp only [List.getElem?_map]
  cases ho : occurrences[i]? with
  | none =>
    have hnone : addresses[i]? = none := by
      rw [List.getElem?_eq_none_iff] at ho ⊢
      omega
    simp [hnone]
  | some o =>
    obtain ⟨address, ha, -, hcourse⟩ := heach i o ho
    have hevaluate := (Inquiry.script_ending env id i 0 (Policy.inquiry options id.name o)).trans
      (hgives.evaluate id i 0 _)
    rw [ha, Option.map_some, Option.map_some, ← hevaluate, ← hcourse.ending_eq]

namespace World

variable (env : Nat → Environment) {resolver : Nat}

/-- In a run in which one resolver alone can read texts, and texts are not changed, every file is
idle or was read by that resolver. -/
theorem readBy_run (options : Options) (libName : String) (registries : Nat → Registry)
    (honly : ∀ k text result, (env k).extract text = .ok result → k = resolver)
    (actions : List Action) (hset : ∀ name text, .setText name text ∉ actions) {id : FileId}
    {l : Lane} (hl : ((initial options libName registries).run env actions).lane? id = some l) :
    l.ReadBy env options id resolver := by
  refine lane_run_past
    (P := fun past l => (∀ name text, .setText name text ∉ past) → l.ReadBy env options id resolver)
    (fun past text opened _ => .inl (Lane.idle_fresh id text opened))
    (fun past a l h hset => h fun name text hmem => hset name text (List.mem_append_left _ hmem))
    (fun past l registries h hset => (h hset).turn registries) (fun past a l l' ht h hset => ?_)
    libName registries actions hl hset
  exact (h hset).touch ht honly fun name text e => hset name text (by simp [e])

/-- **What a resolution that is done has come to**, where one resolver alone reads texts, nobody
changes texts, and nothing is registered: the dependencies of the text of the file with every call
answered at once. -/
theorem done_as_answered (options : Options) (libName : String) (registries : Nat → Registry)
    (honly : ∀ k text result, (env k).extract text = .ok result → k = resolver) {answers : Answers}
    (hgives : (env resolver).Gives answers) (actions : List Action)
    (hset : ∀ name text, .setText name text ∉ actions)
    (hregister : ∀ k address, .register k address ∉ actions) {id : FileId} {r : Record}
    {info : Dependencies}
    (hr : ((initial options libName registries).run env actions).store.record? id = some r)
    (hdone : r.cell.stage = .ended (.returned info)) :
    ∃ found notices, (env resolver).extract r.text = .ok (found, notices) ∧
      answers.dependencies options id.name found.occurrences (registries resolver) = some info := by
  have hl := lane?_of_record? hr
  rcases readBy_run env options libName registries honly actions hset hl with
    hidle | ⟨found, notices, he, hunderway | ⟨ending, hclosed⟩⟩
  · exact absurd (hidle.stage.symm.trans hdone) nofun
  · exact absurd (hunderway.stage.symm.trans hdone) nofun
  obtain rfl : ending = .returned info := by
    have hstage := hclosed.stage.symm.trans hdone
    injection hstage
  refine ⟨found, notices, he, ?_⟩
  obtain ⟨addresses, registry, haddresses, hinfo⟩ := hclosed.addresses hgives
  obtain ⟨before, after, l₀, l₁, work, addresses', rfl, hl₀, hstage, hwork, -, -, hinfo'⟩ :=
    completing_tick options libName registries actions hl hdone
  -- The work that was completed is that of the same resolver.
  have hresolver : work.resolver = resolver := by
    rcases readBy_run env options libName registries honly before
      (fun name text hmem => hset name text (List.mem_append_left _ hmem)) hl₀ with
      hidle | ⟨_, _, _, hunderway | ⟨_, hclosed₀⟩⟩
    · exact absurd (hidle.stage.symm.trans hstage) nofun
    · obtain ⟨join, _, hwork', -⟩ := hunderway.running
      rw [hwork] at hwork'
      cases hwork'
      rfl
    · exact absurd (hclosed₀.stage.symm.trans hstage) nofun
  have hnothing : declarations resolver before = [] :=
    List.eq_nil_iff_forall_not_mem.mpr fun address hmem =>
      hregister resolver address (List.mem_append_left _ (mem_declarations.mp hmem))
  have hregistry : ((initial options libName registries).run env before).registries work.resolver =
      registries resolver := by
    rw [hresolver, registries_run env (tidy_initial options libName registries) before resolver,
      hnothing]
    rfl
  rw [hregistry] at hinfo'
  rw [Answers.dependencies, haddresses, Option.map_some, hinfo',
    Dependencies.build_eq (hinfo'.symm.trans hinfo)]

end World

end DepGraph
