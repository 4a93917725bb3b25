import DepGraph.Proofs.Adding

/-!
# How a run treats a file

A file is added when certain gates are open and certain declarations are registered, with a text,
and from then on a run does this and that to it. This is its treatment, and it settles what becomes
of the file: what else happens in the run has no part in it.

* `Environment.AlikeFor` — two environments that answer one file alike.
* `World.Treats` — a run treats a file in a given way.
* `World.exists_treats` — every run treats each of its files in some way.
* `World.lane?_of_treats`, `World.treated_alike` — files that are treated alike come to the same.
* `World.treats_alone` — the file can be treated so where nobody else is asked for.
* `World.UpToTreatment` — what becomes of a file is up to its treatment alone.
-/

set_option autoImplicit false

namespace DepGraph

/-! ## Answers to one file -/

/-- The environments read texts alike, and answer alike whatever is asked on behalf of file `id`;
what they answer anybody else may differ. -/
structure Environment.AlikeFor (id : FileId) (env env' : Environment) : Prop where
  extract : env'.extract = env.extract
  address : ∀ i stage specifier origin,
    env'.address ⟨id, i, stage⟩ specifier origin = env.address ⟨id, i, stage⟩ specifier origin
  descriptor : ∀ i stage a, env'.descriptor ⟨id, i, stage⟩ a = env.descriptor ⟨id, i, stage⟩ a

namespace Environment.AlikeFor

variable {id : FileId} {env env' : Environment}

/-- The inquiries of the file are the same work. -/
theorem script {α : Type} (h : AlikeFor id env env') (i stage : Nat) (q : Inquiry α) :
    q.script env' id i stage = q.script env id i stage := by
  induction q generalizing stage with
  | answer a => rfl
  | fault f => rfl
  | address specifier next ih => simp only [Inquiry.script, h.address, ih]
  | descriptor a specifier next ih => simp only [Inquiry.script, h.descriptor, ih]
  | note n next ih => simp only [Inquiry.script, ih]

theorem workOf (h : AlikeFor id env env') (options : Options) (resolver : Nat)
    (found : Extraction) :
    World.workOf env' options resolver id found = World.workOf env options resolver id found := by
  simp only [World.workOf, h.script]

theorem request (h : AlikeFor id env env') (options : Options) (resolver : Nat)
    (listener : Option WalkRef) (l : Lane) :
    l.request env' options resolver id listener = l.request env options resolver id listener := by
  simp only [Lane.request, Lane.start, h.extract, h.workOf]

end Environment.AlikeFor

/-- What is done to the file makes the same of it. -/
theorem Lane.dealAll_alike {envs envs' : Nat → Environment} {options : Options} {id : FileId}
    (h : ∀ k, (envs k).AlikeFor id (envs' k)) (registries : Nat → Registry) (l : Lane)
    (dealt : List Action) :
    dealAll envs' options id registries l dealt = dealAll envs options id registries l dealt := by
  induction dealt generalizing registries l with
  | nil => rfl
  | cons a rest ih =>
    have hdeal : l.deal envs' options id registries a = l.deal envs options id registries a := by
      cases a with
      | resolve resolver name => exact (h resolver).request options resolver none l
      | _ => rfl
    rw [dealAll, dealAll, hdeal, ih]

/-! ## Treatments -/

/-- What a file meets with: its text and what is there when it is added, and all that is done to it
from then on. -/
structure Treatment where
  text : String
  /-- The gates that are open when the file is added. -/
  opened : List Gate
  registries : Nat → Registry
  dealt : List Action

namespace World

variable {envs envs' : Nat → Environment} {options : Options} {libName : String}
  {registries : Nat → Registry} {start : World} {id : FileId} {t : Treatment}

/-- A run treats file `id` in the given way. -/
def Treats (envs : Nat → Environment) (start : World) (actions : List Action) (id : FileId)
    (t : Treatment) : Prop :=
  ∃ before a after w, actions = before ++ a :: after ∧ w = start.run envs before ∧
    (id.name, t.text) ∈ w.additions a ∧ id = w.store.next id.name ∧ w.loop.opened = t.opened ∧
    w.registries = t.registries ∧ allDealings envs id w (a :: after) = t.dealt

/-- **What becomes of a file** is what its treatment makes of it. -/
theorem lane?_of_treats (hstart : start = initial options libName registries)
    {actions : List Action} (h : Treats envs start actions id t) :
    ((start.run envs actions).lane? id).map Lane.heedless =
      some (Lane.dealAll envs options id t.registries (Lane.fresh t.text t.opened) t.dealt) := by
  obtain ⟨before, a, after, w, rfl, hw, hadd, hid, hopened, hregistries, hdealt⟩ := h
  have htidy : start.Tidy := hstart ▸ tidy_initial options libName registries
  have hdistinct : w.Distinct :=
    hw ▸ distinct_run envs (hstart ▸ distinct_initial options libName registries) before
  have hwtidy : w.Tidy := hw ▸ tidy_run envs htidy before
  have hoptions : w.store.options = options := by
    rw [hw, options_run htidy before, hstart]
    rfl
  obtain ⟨l, hl, hdeals⟩ := lane?_run_added envs hwtidy a
    (lane?_additions envs hwtidy (nodup_additions hdistinct a) hadd) after
  rw [← hid] at hl hdeals
  rw [run_append, ← hw, hl, Option.map_some, hdeals, hoptions, hopened, hregistries, hdealt]
  rfl

/-- **Files that are treated alike come to the same**, calls included, whatever else the two runs
do, and whatever everybody else is answered in them. -/
theorem treated_alike (hstart : start = initial options libName registries)
    (henvs : ∀ k, (envs k).AlikeFor id (envs' k)) {actions actions' : List Action}
    (h : Treats envs start actions id t) (h' : Treats envs' start actions' id t) :
    ((start.run envs' actions').lane? id).map Lane.heedless =
      ((start.run envs actions).lane? id).map Lane.heedless := by
  rw [lane?_of_treats hstart h, lane?_of_treats hstart h', Lane.dealAll_alike henvs]

/-! ## Every file is treated in some way -/

/-- A file that was not there before an action is one that the action adds. -/
theorem added_of_new {w : World} (hw : w.Tidy) (hdistinct : w.Distinct) {a : Action} {r : Record}
    (hnone : w.store.record? id = none) (hr : (w.apply envs a).store.record? id = some r) :
    ∃ text, (id.name, text) ∈ w.additions a ∧ id = w.store.next id.name := by
  have hlength := length_generations_addAll (nodup_additions hdistinct a) w id.name
  have hbefore : (w.store.generations id.name).length ≤ id.generation :=
    List.getElem?_eq_none_iff.mp hnone
  have hafter : id.generation < ((w.apply envs a).store.generations id.name).length :=
    (List.getElem?_eq_some_iff.mp hr).1
  rw [(kept_additions envs hw a).generations, hlength] at hafter
  have hmem : id.name ∈ (w.additions a).map (·.1) := by
    by_contra hnot
    rw [if_neg hnot] at hafter
    omega
  rw [if_pos hmem] at hafter
  obtain ⟨⟨name, text⟩, hadd, hname⟩ := List.mem_map.mp hmem
  obtain rfl : name = id.name := hname
  refine ⟨text, hadd, ?_⟩
  have hgeneration : id.generation = (w.store.generations id.name).length := by omega
  rw [Store.next, ← hgeneration]

/-- **A run treats each of its files in some way.** -/
theorem exists_treats (hstart : start = initial options libName registries)
    (actions : List Action) {r : Record} (hr : (start.run envs actions).store.record? id = some r) :
    ∃ t, Treats envs start actions id t := by
  induction actions using List.reverseRec generalizing r with
  | nil =>
    rw [hstart] at hr
    simp [run, initial, Store.record?, Store.generations] at hr
  | append_singleton actions b ih =>
    cases hbefore : (start.run envs actions).store.record? id with
    | some r₀ =>
      obtain ⟨t, before, a, after, w, hactions, hw, hadd, hid, hopened, hregistries, -⟩ :=
        ih hbefore
      exact ⟨⟨t.text, t.opened, t.registries, allDealings envs id w (a :: (after ++ [b]))⟩, before,
        a, after ++ [b], w, by rw [hactions]; simp, hw, hadd, hid, hopened, hregistries, rfl⟩
    | none =>
      have htidy : start.Tidy := hstart ▸ tidy_initial options libName registries
      have hdistinct : start.Distinct := hstart ▸ distinct_initial options libName registries
      rw [run_concat] at hr
      obtain ⟨text, hadd, hid⟩ := added_of_new (tidy_run envs htidy actions)
        (distinct_run envs hdistinct actions) hbefore hr
      exact ⟨⟨text, _, _, allDealings envs id (start.run envs actions) [b]⟩, actions, b, [], _, rfl,
        rfl, hadd, hid, rfl, rfl, rfl⟩

/-! ## The same treatment where nobody else is asked for -/

/-- **A file can be treated as it is where it is alone**: in a run without walks, in which no other
file is asked for. -/
theorem treats_alone (hstart : start = initial options libName registries) {actions : List Action}
    (h : Treats envs start actions id t) :
    ∃ alone, Treats envs start alone id t ∧ (start.run envs alone).walks = [] ∧
      ∀ resolver name, .resolve resolver name ∈ alone → name = id.name := by
  obtain ⟨before, a, after, w, rfl, hw, hadd, hid, hopened, hregistries, hdealt⟩ := h
  have htidy : start.Tidy := hstart ▸ tidy_initial options libName registries
  have hdistinct : start.Distinct := hstart ▸ distinct_initial options libName registries
  have hwtidy : w.Tidy := hw ▸ tidy_run envs htidy before
  have hwdistinct : w.Distinct := hw ▸ distinct_run envs hdistinct before
  obtain ⟨-, hnext, hopened', hregistries'⟩ := quietly_spec envs hstart before id.name
  obtain ⟨hsole, hoptions, hsame, hlane⟩ := add_quietly envs hstart before id.name t.text hw rfl
  have hfresh := lane?_additions envs hwtidy (nodup_additions hwdistinct a) hadd
  rw [← hw] at hnext hopened' hregistries'
  rw [← hid] at hsole hlane hfresh hnext
  obtain ⟨hfirst, hdealt₁⟩ := mirrors_apply envs a hwtidy hsole hoptions hsame hfresh hlane rfl
  obtain ⟨hlast, hdealt₂⟩ := hfirst.run envs after
  generalize hcalm : start.run envs (quietly before w id.name) = calm at *
  -- What is done to the file in the run is done to it again, and nothing else is.
  have hagain : allDealings envs id calm (.add id.name t.text :: t.dealt) = t.dealt := by
    rw [← hdealt]
    change allDealings envs id (calm.add id.name t.text)
      (w.dealings envs id a ++ allDealings envs id (w.apply envs a) after) = _
    rw [allDealings_append, hdealt₁, hdealt₂]
    rfl
  have halone : start.run envs (quietly before w id.name ++ .add id.name t.text :: t.dealt) =
      ((calm.add id.name t.text).run envs (w.dealings envs id a)).run envs
        (allDealings envs id (w.apply envs a) after) := by
    rw [run_append, hcalm, ← hdealt]
    exact run_append (calm.add id.name t.text) _ _
  refine ⟨_, ⟨quietly before w id.name, .add id.name t.text, t.dealt, calm, rfl, hcalm.symm,
    List.mem_singleton.mpr rfl, hnext.symm, hopened'.trans hopened,
    hregistries'.trans hregistries, hagain⟩, ?_, fun resolver name hmem => ?_⟩
  · rw [halone]
    exact hlast.sole.walks
  · rcases List.mem_append.mp hmem with hmem | hmem
    · rcases List.mem_append.mp hmem with hmem | hmem
      · exact absurd (List.mem_filter.mp hmem).2 nofun
      · obtain ⟨_, -, hadd⟩ := List.mem_map.mp hmem
        cases hadd
    · rcases List.mem_cons.mp hmem with hmem | hmem
      · cases hmem
      · rw [← hdealt] at hmem
        exact (concerns_allDealings hmem).resolve_left nofun

/-- What becomes of file `id` in the run is up to its treatment alone: it can be treated so in a run
without walks in which nobody asks for another file, and wherever it is treated so it comes to the
same, whatever everybody else is answered. -/
def UpToTreatment (envs : Nat → Environment) (start : World) (actions : List Action) (id : FileId) :
    Prop :=
  ∃ t, Treats envs start actions id t ∧
    (∃ alone, Treats envs start alone id t ∧ (start.run envs alone).walks = [] ∧
      ∀ resolver name, .resolve resolver name ∈ alone → name = id.name) ∧
    ∀ envs' actions', (∀ k, (envs k).AlikeFor id (envs' k)) → Treats envs' start actions' id t →
      ((start.run envs' actions').lane? id).map Lane.heedless =
        ((start.run envs actions).lane? id).map Lane.heedless

/-- **What becomes of any file of any run is up to its treatment alone.** -/
theorem upToTreatment (hstart : start = initial options libName registries) (actions : List Action)
    {r : Record} (hr : (start.run envs actions).store.record? id = some r) :
    UpToTreatment envs start actions id := by
  obtain ⟨t, htreats⟩ := exists_treats hstart actions hr
  exact ⟨t, htreats, treats_alone hstart htreats,
    fun _ _ henvs htreats' => treated_alike hstart henvs htreats htreats'⟩

end World

end DepGraph
