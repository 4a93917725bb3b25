import DepGraph.Proofs.Adding
import DepGraph.Proofs.Sharing

/-!
# Generations of a file

A file that is added again begins anew: what is under way for the files that had its name before
goes on, for those who wait for it, and has no part in what becomes of the new one.

* `World.new_unasked` — until somebody asks for it, the new file stays as it was added.
* `World.new_alone` — the new file comes to what it comes to where the others were never resolved.
* `World.earlier_alone` — what becomes of the files that had the name before.
* `World.adding_again_isolates` — all of this, for every file that is added under a known name.
-/

set_option autoImplicit false

namespace DepGraph

namespace Lane

variable {envs : Nat → Environment} {options : Options} {id : FileId} {a : Action}

theorem text_deal (ha : ∀ name text, a ≠ .setText name text) (registries : Nat → Registry)
    (l : Lane) : (l.deal envs options id registries a).record.text = l.record.text := by
  cases a with
  | tick => exact text_turn l id registries
  | setText name text => exact absurd rfl (ha name text)
  | resolve resolver name =>
    change (l.request (envs resolver) options resolver id none).record.text = _
    unfold request
    split <;> rfl
  | resolveWithoutLoop resolver name =>
    change (l.requestWithoutLoop id).record.text = _
    unfold requestWithoutLoop
    split <;> rfl
  | _ => rfl

/-- Only who sets the text of a file changes it. -/
theorem text_dealAll {dealt : List Action} (hdealt : ∀ name text, .setText name text ∉ dealt)
    (registries : Nat → Registry) (l : Lane) :
    (dealAll envs options id registries l dealt).record.text = l.record.text := by
  refine dealAll_of_deal (P := fun l' => l'.record.text = l.record.text)
    (fun b hb registries l' hl' => ?_) registries rfl
  exact (text_deal (fun name text e => hdealt name text (e ▸ hb)) registries l').trans hl'

end Lane

namespace World

variable {envs : Nat → Environment} {options : Options} {libName : String}
  {registries : Nat → Registry} {start w v : World} {id new : FileId}
  {before after dealt : List Action} {a : Action} {name text : String}

/-! ## The new file -/

/-- **Until somebody asks for it**, a new file stays as it was added. -/
theorem new_unasked (hw : w.Tidy) (hdistinct : w.Distinct) (hadd : (name, text) ∈ w.additions a)
    (hnew : new = w.store.next name) (hdealt : dealt = allDealings envs new w (a :: after))
    (hnone : ∀ resolver, .resolve resolver name ∉ dealt) :
    ∃ text', (w.run envs (a :: after)).store.record? new = some { text := text' } ∧
      ((∀ other, .setText name other ∉ dealt) → text' = text) := by
  subst hnew hdealt
  have hnamed : ∀ {b : Action}, b ∈ allDealings envs (w.store.next name) w (a :: after) →
      b = .tick ∨ b.Concerns (w.store.next name) := concerns_allDealings
  obtain ⟨l, hl, hdeals⟩ := lane?_run_added envs hw a
    (lane?_additions envs hw (nodup_additions hdistinct a) hadd) after
  have hunasked : l.Unasked := by
    refine .of_heedless (hdeals ▸ (Lane.unasked_fresh text _).heedless.dealAll ?_ _)
    intro resolver other hmem
    obtain rfl : other = name := (hnamed hmem).resolve_left nofun
    exact hnone resolver hmem
  obtain ⟨text', opened, hrecord, -⟩ := hunasked
  refine ⟨text', hrecord ▸ (lane?_eq_some.mp hl).1, fun hset => ?_⟩
  have htext := congrArg (fun l : Lane => l.record.text) hdeals
  rw [Lane.text_heedless, hrecord, Lane.text_dealAll] at htext
  · exact htext
  · intro other text hmem
    obtain rfl : other = name := (hnamed hmem).resolve_left nofun
    exact hset text hmem

/-- **What is done to the new file** makes it what it is, in whatever run it is done. -/
theorem new_determined (hstart : start = initial options libName registries)
    (hw : w = start.run envs before) (hadd : (name, text) ∈ w.additions a)
    (hnew : new = w.store.next name) {before' after' : List Action} {a' : Action} {w' : World}
    (hw' : w' = start.run envs before') (hadd' : (name, text) ∈ w'.additions a')
    (hnew' : new = w'.store.next name) (hopened : w'.loop.opened = w.loop.opened)
    (hregistries : w'.registries = w.registries)
    (hdealt : allDealings envs new w' (a' :: after') = allDealings envs new w (a :: after)) :
    ((w'.run envs (a' :: after')).lane? new).map Lane.heedless =
      ((w.run envs (a :: after)).lane? new).map Lane.heedless := by
  have htidy : start.Tidy := hstart ▸ tidy_initial options libName registries
  have hdistinct : start.Distinct := hstart ▸ distinct_initial options libName registries
  have hmade : ∀ {before after : List Action} {a : Action} {w : World},
      w = start.run envs before → (name, text) ∈ w.additions a → new = w.store.next name →
      ((w.run envs (a :: after)).lane? new).map Lane.heedless =
        some (Lane.dealAll envs start.store.options new w.registries
          (Lane.fresh text w.loop.opened) (allDealings envs new w (a :: after))) := by
    intro before after a w hw hadd hnew
    have hwtidy : w.Tidy := hw ▸ tidy_run envs htidy before
    have hoptions : w.store.options = start.store.options := hw ▸ options_run htidy before
    obtain ⟨l, hl, hdeals⟩ := lane?_run_added envs hwtidy a (lane?_additions envs hwtidy
      (nodup_additions (hw ▸ distinct_run envs hdistinct before) a) hadd) after
    rw [← hnew] at hl hdeals
    rw [hl, Option.map_some, hdeals, hoptions]
    rfl
  rw [hmade hw hadd hnew, hmade hw' hadd' hnew', hopened, hregistries, hdealt]

/-- **The new file alone**: where the other files of its name were never asked for, but the same is
done to the new one, it comes to the same. -/
theorem new_alone (hstart : start = initial options libName registries)
    (hw : w = start.run envs before) (hadd : (name, text) ∈ w.additions a)
    (hnew : new = w.store.next name) (hdealt : dealt = allDealings envs new w (a :: after)) :
    ((start.run envs (quietly before w name ++ .add name text :: dealt)).lane? new).map
        Lane.heedless =
      ((w.run envs (a :: after)).lane? new).map Lane.heedless := by
  have htidy : start.Tidy := hstart ▸ tidy_initial options libName registries
  have hdistinct : start.Distinct := hstart ▸ distinct_initial options libName registries
  have hwtidy : w.Tidy := hw ▸ tidy_run envs htidy before
  have hwdistinct : w.Distinct := hw ▸ distinct_run envs hdistinct before
  obtain ⟨hsole, hoptions, hregistries, hlane⟩ := add_quietly envs hstart before name text hw rfl
  subst hnew hdealt
  obtain ⟨hfirst, -⟩ := mirrors_apply envs a hwtidy hsole hoptions hregistries
    (lane?_additions envs hwtidy (nodup_additions hwdistinct a) hadd) hlane rfl
  obtain ⟨l, l', hl, hl', hsame⟩ := (hfirst.run envs after).1.lanes
  have halone : start.run envs (quietly before w name ++ .add name text ::
      allDealings envs (w.store.next name) w (a :: after)) =
      (((start.run envs (quietly before w name)).add name text).run envs
        (w.dealings envs (w.store.next name) a)).run envs
        (allDealings envs (w.store.next name) (w.apply envs a) after) := by
    rw [run_append, allDealings]
    exact run_append ((start.run envs (quietly before w name)).add name text) _ _
  rw [halone, hl', Option.map_some, hsame]
  exact congrArg (Option.map Lane.heedless) hl.symm

/-! ## The earlier files -/

/-- Nobody looks for the files of a name from the action on that adds the name again. -/
theorem not_seeks_earlier (after : List Action) (hw : w.Tidy) {r : Record}
    (hr : w.store.record? id = some r) (hadd : (id.name, text) ∈ w.additions a) :
    ∀ b ∈ allDealings envs id w (a :: after), ¬b.Seeks := by
  intro b hb
  have hsuperseded := superseded_of_mem hr hadd
  rcases List.mem_append.mp hb with hb | hb
  · exact not_seeks_of_superseded hsuperseded hb
  · refine not_seeks_run (tidy_apply envs hw a) ?_ hb
    unfold Store.Superseded at hsuperseded ⊢
    rwa [(kept_additions envs hw a).generations]

/-- Other actions that do the same to a file make the same of it. -/
theorem lane?_of_dealings (hw : w.Tidy) {r : Record} (hr : w.store.record? id = some r)
    {actions others : List Action}
    (hsame : allDealings envs id w others = allDealings envs id w actions) :
    ((w.run envs others).lane? id).map Lane.heedless =
      ((w.run envs actions).lane? id).map Lane.heedless := by
  obtain ⟨l₁, hl₁, hdeals₁⟩ := lane?_run_dealings envs hw (lane?_of_record? hr) others
  obtain ⟨l₂, hl₂, hdeals₂⟩ := lane?_run_dealings envs hw (lane?_of_record? hr) actions
  rw [hl₁, hl₂, Option.map_some, Option.map_some, hdeals₁, hdeals₂, hsame]

/-- What was started stays started. -/
theorem started_run (options : Options) (libName : String) (registries : Nat → Registry)
    (before : List Action) {w : World}
    (hw : w = (initial options libName registries).run envs before) {r r' : Record}
    (hr : w.store.record? id = some r) (hs : r.cell.stage ≠ .unstarted) (actions : List Action)
    (hr' : (w.run envs actions).store.record? id = some r') :
    r'.cell.stage ≠ .unstarted := by
  have htidy := tidy_initial options libName registries
  subst hw
  rcases lawful_run options libName registries before (lane?_of_record? hr) with
    hidle | ⟨resolver, occurrences, hstarted⟩
  · exact absurd hidle.stage hs
  · have hlater := lane_run_of (P := Lane.Started envs options id resolver occurrences)
      (fun l registries h => h.turn registries) (fun a l l' ht h => h.touch ht)
      (tidy_run envs htidy before) (options_run htidy before) (lane?_of_record? hr) hstarted actions
      (lane?_of_record? hr')
    exact hlater.stage_ne

/-- **The tick of a file** leaves all other files as they are. -/
theorem lane?_tick_other (hw : w.Tidy) {job : FileJob} {loop : Loop Job}
    (hnext : w.loop.next? = some (.file id job, loop)) {other : FileId} (hne : other ≠ id) :
    (w.apply envs .tick).lane? other = w.lane? other := by
  have htick : w.apply envs .tick = ({ w with loop } : World).performFile id job := by
    change w.tick envs = _
    simp [tick, hnext, perform]
  rw [htick, lane?_performFile_other hw hnext (Ne.symm hne)]

/-- Where the new file is alone, the earlier files of its name stay as they were added. -/
theorem earlier_alone (hstart : start = initial options libName registries)
    (hw : w = start.run envs before) (hname : id.name = name) {r : Record}
    (hr : w.store.record? id = some r) (text : String) (dealt : List Action) :
    ∃ text', (start.run envs (quietly before w name ++ .add name text :: dealt)).store.record? id =
      some { text := text' } := by
  subst hw hname
  have htidy : start.Tidy := hstart ▸ tidy_initial options libName registries
  obtain ⟨hquiet, hnext, -, -⟩ := quietly_spec envs hstart before id.name
  rw [run_append]
  have hcalm := tidy_run envs htidy (quietly before (start.run envs before) id.name)
  generalize start.run envs (quietly before (start.run envs before) id.name) = calm at *
  -- There are as many files of the name as in the run, so this one is there too.
  have hlt : id.generation < (calm.store.generations id.name).length := by
    have hlength : (calm.store.generations id.name).length =
        ((start.run envs before).store.generations id.name).length :=
      congrArg FileId.generation hnext
    rw [hlength]
    exact (List.getElem?_eq_some_iff.mp hr).1
  have hcalmr : calm.store.record? id = some _ := List.getElem?_eq_getElem hlt
  obtain ⟨text₀, htext₀⟩ := hquiet.records id _ hcalmr
  rw [htext₀] at hcalmr
  have hl := lane?_of_record? hcalmr
  have hunasked : Lane.Unasked ⟨{ text := text₀ }, calm.loop.select (Job.of? id),
      calm.log.filter (Event.isOf id)⟩ :=
    ⟨text₀, calm.loop.opened, rfl, by rw [hquiet.jobs]; rfl⟩
  have hsame : (id.name, text) ∈ calm.additions (.add id.name text) := List.mem_cons_self
  obtain ⟨l', hl', text', -, hrecord, -⟩ := unasked_run hcalm hl hunasked
    (.add id.name text :: dealt) fun resolver other hmem =>
      not_seeks_earlier dealt hcalm hcalmr hsame _ hmem trivial
  exact ⟨text', hrecord ▸ (lane?_eq_some.mp hl').1⟩

/-! ## Adding a file again -/

/-- **Adding a file again begins it anew.** In any run, let an action add a file under a name that
is known; it may be a request to add it, or the tick of a walk that adds what it has fetched.

From then on the new file is the one that is found. Until somebody asks for it, its record is as it
was added, but for the text if that is set; and what becomes of it depends only on what is done to
it. In particular it comes to the same, calls included, in a run in which the earlier files of the
name are never asked for.

The earlier files have the waiters that they have. What is done to them besides the new file makes
of them what it would make without it; their ticks touch nothing else. Their waiters have their
outcomes, unless they give up, and come to have them along every fair schedule.

The name keeps its place, and there are as many names as were ever added. -/
theorem adding_again_isolates (envs : Nat → Environment) (options : Options) (libName : String)
    (registries : Nat → Registry) {start : World}
    (hstart : start = initial options libName registries) (before : List Action) (a : Action)
    (after : List Action) {w v : World} (hw : w = start.run envs before)
    (hv : v = start.run envs (before ++ a :: after)) {name text : String}
    (hknown : w.store.contains name = true) (hadd : (name, text) ∈ w.additions a) {new : FileId}
    (hnew : new = w.store.next name) {dealt : List Action}
    (hdealt : dealt = allDealings envs new w (a :: after)) {alone : List Action}
    (halone : alone = quietly before w name ++ .add name text :: dealt) :
    ((w.apply envs a).store.current? name = some new ∧
      ((∀ resolver, .resolve resolver name ∉ dealt) →
        ∃ text', v.store.record? new = some { text := text' } ∧
          ((∀ other, .setText name other ∉ dealt) → text' = text)) ∧
      ((start.run envs alone).lane? new).map Lane.heedless = (v.lane? new).map Lane.heedless ∧
      ∀ before' a' after' w', w' = start.run envs before' → (name, text) ∈ w'.additions a' →
        new = w'.store.next name → w'.loop.opened = w.loop.opened →
        w'.registries = w.registries → allDealings envs new w' (a' :: after') = dealt →
        ((w'.run envs (a' :: after')).lane? new).map Lane.heedless =
          (v.lane? new).map Lane.heedless) ∧
    (∀ id r, id.name = name → w.store.record? id = some r →
      (∃ text', (start.run envs alone).store.record? id = some { text := text' }) ∧
      (∀ b ∈ allDealings envs id w (a :: after), ¬b.Seeks) ∧
      (∀ others, allDealings envs id w others = allDealings envs id w (a :: after) →
        ((w.run envs others).lane? id).map Lane.heedless = (v.lane? id).map Lane.heedless) ∧
      (∀ job loop, v.loop.next? = some (.file id job, loop) → ∀ other, other ≠ id →
        (v.apply envs .tick).lane? other = v.lane? other) ∧
      ∃ r', v.store.record? id = some r' ∧ r'.text = r.text ∧
        r'.cell.waiters.length = r.cell.waiters.length ∧ r.cell.Joined r'.cell ∧
        (∀ k x o, r'.cell.waiters[k]? = some x → x.outcome = some o →
          r'.cell.stage = .ended o ∨
            o = .cancelled ∧ GaveUp (before ++ a :: after) id k x.listener) ∧
        (r.cell.stage ≠ .unstarted → ∀ schedule, Fair envs v schedule id →
          ∃ ending, ResolvesTo envs v schedule id ending ∧
            ∀ k x, r'.cell.waiters[k]? = some x → ∃ n o,
              (v.after envs schedule n).outcome? id k = some o ∧
              (o = ending ∨ o = .cancelled ∧
                GaveUp (before ++ a :: after ++ (List.range n).map schedule) id k x.listener))) ∧
    v.store.names.idxOf name = w.store.names.idxOf name ∧
    v.store.names = Dependencies.distinct
      ((allAdditions envs start (before ++ a :: after)).map (·.1)) ∧
    v.store.names.length =
      ((allAdditions envs start (before ++ a :: after)).map (·.1)).toFinset.card := by
  have htidy : start.Tidy := hstart ▸ tidy_initial options libName registries
  have hdistinct : start.Distinct := hstart ▸ distinct_initial options libName registries
  have hwtidy : w.Tidy := hw ▸ tidy_run envs htidy before
  have hwdistinct : w.Distinct := hw ▸ distinct_run envs hdistinct before
  have hrun : v = w.run envs (a :: after) := by rw [hv, hw, run_append]
  have hvtidy : v.Tidy := hrun ▸ tidy_run envs hwtidy (a :: after)
  refine ⟨⟨hnew ▸ current?_additions envs hwtidy hwdistinct hadd, fun hnone => ?_, ?_, ?_⟩,
    fun id r hname hr => ⟨?_, ?_, fun others hsame => ?_, fun job loop hnext other hne => ?_, ?_⟩,
    ?_, ?_, ?_⟩
  · rw [hrun]
    exact new_unasked hwtidy hwdistinct hadd hnew hdealt hnone
  · rw [hrun, halone]
    exact new_alone hstart hw hadd hnew hdealt
  · intro before' a' after' w' hw' hadd' hnew' hopened hregistries hsame
    rw [hrun]
    exact new_determined hstart hw hadd hnew hw' hadd' hnew' hopened hregistries
      (hsame.trans hdealt)
  · rw [halone]
    exact earlier_alone hstart hw hname hr text dealt
  · exact not_seeks_earlier after hwtidy hr (hname ▸ hadd)
  · rw [hrun]
    exact lane?_of_dealings hwtidy hr hsame
  · exact lane?_tick_other hvtidy hnext hne
  · obtain ⟨r', hr', htext, hlength, hjoined⟩ := unsought_run hwtidy hr
      (not_seeks_earlier after hwtidy hr (hname ▸ hadd))
    have hstays : r.cell.stage ≠ .unstarted → r'.cell.stage ≠ .unstarted := fun hs =>
      started_run options libName registries before (hstart ▸ hw) hr hs (a :: after) hr'
    rw [← hrun] at hr'
    subst hstart hv
    refine ⟨r', hr', htext, hlength, hjoined, ?_, fun hs schedule => ?_⟩
    · exact truthful_run options libName registries _ (lane?_of_record? hr')
    · exact hears_run options libName registries _ hr' (hstays hs)
  · rw [hrun]
    exact idxOf_run envs hwtidy hknown (a :: after)
  · rw [hv, hstart]
    exact names_run envs options libName registries _
  · rw [hv, hstart]
    exact length_names_run envs options libName registries _

/-- A text is the name of the file that it refers to, and the address of it comes once the gate of
that name is open. -/
def namesake : Nat → Environment := fun _ =>
  { address := fun _ specifier _ => { gates := [specifier], outcome := .returned specifier }
    descriptor := fun _ _ => { outcome := .returned ⟨[]⟩ }
    source := fun _ name => { outcome := .returned name }
    extract := fun text => .ok ({ fileReferences := [text] }, []) }

/-- A file is asked for twice and waits for the address of what it refers to. -/
def underWay : List Action := [.add "a" "./b.ts", .resolve 0 "a", .resolve 1 "a", .tick, .tick]

/-- The new file is asked for, and is resolved before the earlier one. -/
def overtaking : List Action :=
  [.resolve 1 "a"] ++ List.replicate 3 .tick ++ [.release "./c.ts"] ++ List.replicate 5 .tick ++
    [.release "./b.ts"] ++ List.replicate 5 .tick

theorem adding_again_isolates_under_way : ∃ start w v alone,
    start = initial {} defaultLibName (fun _ => {}) ∧ w = start.run namesake underWay ∧
    v = start.run namesake (underWay ++ .add "a" "./c.ts" :: overtaking) ∧
    (w.store.generations "a").map (·.cell.stage) = [.inProgress] ∧
    (v.store.generations "a").map (·.dependencies) =
      [some ⟨[("./b.ts", some "./b.ts")], ["./b.ts"]⟩,
        some ⟨[("./c.ts", some "./c.ts")], ["./c.ts"]⟩] ∧
    ((start.run namesake alone).lane? ⟨"a", 1⟩).map Lane.heedless =
      (v.lane? ⟨"a", 1⟩).map Lane.heedless ∧
    (∃ text, (start.run namesake alone).store.record? ⟨"a", 0⟩ = some { text }) ∧
    v.store.names.length = 1 := by
  have hknown : ((initial {} defaultLibName fun _ => {}).run namesake underWay).store.contains
      "a" = true := by decide +kernel
  obtain ⟨⟨-, -, halone, -⟩, hearlier, -, -, hlength⟩ := adding_again_isolates namesake {}
    defaultLibName (fun _ => {}) rfl underWay (.add "a" "./c.ts") overtaking rfl rfl hknown
    (List.mem_singleton.mpr rfl) rfl rfl rfl
  have hearly := hearlier ⟨"a", 0⟩ _ rfl rfl
  exact ⟨_, _, _, _, rfl, rfl, rfl, by decide +kernel, by decide +kernel, halone, hearly.1,
    hlength.trans (by decide +kernel)⟩

end World

end DepGraph
