import Mathlib.Data.List.Basic
import DepGraph.Resolution.File

/-!
# The part of a loop that belongs to one of those who share it

Files and walks share one loop. `Loop.select f` keeps the jobs that `f` picks, in their order, and
the gates. Whatever is done to the shared loop on behalf of one owner is done to that owner's part
alone:

* `Loop.select_post`, `Loop.select_park_some`, `Loop.select_release`, `Loop.select_withdrawAll` —
  the part after a change of the whole.
* `Join.perform_select`, `Join.abandon_select` — a join does the same on its part of the loop as on
  the whole.
* `Record.perform_select` — and so does the resolution of a file.
* `Record.perform_select_none` — which leaves the parts of all others as they are.
* `Loop.Extends` — jobs came only after all that were due: `Record.perform_extends`.
-/

set_option autoImplicit false

namespace DepGraph

variable {J K : Type}

namespace Loop

/-- The jobs that `f` picks, with all the gates. -/
def select (f : J → Option K) (loop : Loop J) : Loop K :=
  { ready := loop.ready.filterMap f
    waiting := loop.waiting.filterMap fun p => (f p.2).map fun k => (p.1, k)
    opened := loop.opened }

@[simp] theorem isOpen_select (f : J → Option K) (loop : Loop J) (gate : Gate) :
    (loop.select f).isOpen gate = loop.isOpen gate := rfl

@[simp] theorem select_post (f : J → Option K) (loop : Loop J) (job : J) :
    (loop.post job).select f = (loop.select f).postAll (f job).toList := by
  cases h : f job <;> simp [select, post, postAll, h]

@[simp] theorem select_postAll (f : J → Option K) (loop : Loop J) (jobs : List J) :
    (loop.postAll jobs).select f = (loop.select f).postAll (jobs.filterMap f) := by
  simp [select, postAll]

@[simp] theorem postAll_nil (loop : Loop J) : loop.postAll [] = loop := by
  simp [postAll]

@[simp] theorem postAll_singleton (loop : Loop J) (job : J) : loop.postAll [job] = loop.post job :=
  rfl

theorem select_park_some {f : J → Option K} {job : J} {k : K} (h : f job = some k) (loop : Loop J)
    (gate : Gate) : (loop.park gate job).select f = (loop.select f).park gate k := by
  simp [select, park, h]

theorem select_park_none {f : J → Option K} {job : J} (h : f job = none) (loop : Loop J)
    (gate : Gate) : (loop.park gate job).select f = loop.select f := by
  simp [select, park, h]

theorem select_release (f : J → Option K) (loop : Loop J) (gate : Gate) :
    (loop.release gate).select f = (loop.select f).release gate := by
  have hready : ((loop.waiting.filter (·.1 == gate)).map (·.2)).filterMap f =
      ((loop.select f).waiting.filter (·.1 == gate)).map (·.2) := by
    simp only [select]
    induction loop.waiting with
    | nil => rfl
    | cons p rest ih =>
      by_cases hg : p.1 = gate <;> cases hf : f p.2 <;> simp_all
  have hwaiting : (loop.waiting.filter (·.1 != gate)).filterMap
        (fun p => (f p.2).map fun k => (p.1, k)) =
      (loop.select f).waiting.filter (·.1 != gate) := by
    simp only [select]
    induction loop.waiting with
    | nil => rfl
    | cons p rest ih =>
      by_cases hg : p.1 = gate <;> cases hf : f p.2 <;> simp_all
  unfold release
  simp only [select, isOpen, List.filterMap_append, hready, hwaiting] at *
  rfl

theorem select_select {L : Type} (f : J → Option K) (g : K → Option L) (loop : Loop J) :
    (loop.select f).select g = loop.select fun job => (f job).bind g := by
  have hready : (loop.ready.filterMap f).filterMap g = loop.ready.filterMap fun job =>
      (f job).bind g := by
    rw [List.filterMap_filterMap]
  have hwaiting : (loop.waiting.filterMap fun p => (f p.2).map fun k => (p.1, k)).filterMap
        (fun p => (g p.2).map fun l => (p.1, l)) =
      loop.waiting.filterMap fun p => ((f p.2).bind g).map fun l => (p.1, l) := by
    rw [List.filterMap_filterMap]
    congr 1
    funext p
    cases f p.2 <;> rfl
  simp only [select, hready, hwaiting]

/-- Jobs came after all that were due, and no gate was opened. -/
def Extends (loop loop' : Loop J) : Prop :=
  loop.ready <+: loop'.ready ∧ loop'.opened = loop.opened

/-- `f` undoes `wrap` and picks nothing else. -/
def Unwraps (f : J → Option K) (wrap : K → J) : Prop := ∀ j k, f j = some k ↔ j = wrap k

/-- `f` turns the jobs that `wrap` makes into those that `wrap'` makes, and nothing else into
these. -/
def Carries {I : Type} (f : J → Option K) (wrap : I → J) (wrap' : I → K) : Prop :=
  ∀ j i, f j = some (wrap' i) ↔ j = wrap i

section Carries

variable {I : Type} {f : J → Option K} {wrap : I → J} {wrap' : I → K}

theorem Unwraps.carries {wrap : K → J} (h : Unwraps f wrap) (g : I → K) :
    Carries f (fun i => wrap (g i)) g := fun j i => h j (g i)

theorem Carries.comp {I' : Type} (h : Carries f wrap wrap') (g : I' → I) :
    Carries f (fun i => wrap (g i)) fun i => wrap' (g i) := fun j i => h j (g i)

theorem Carries.apply (h : Carries f wrap wrap') (i : I) : f (wrap i) = some (wrap' i) :=
  (h _ _).2 rfl

theorem Carries.filterMap {α : Type} (h : Carries f wrap wrap') (g : α → I) (xs : List α) :
    (xs.map fun x => wrap (g x)).filterMap f = xs.map fun x => wrap' (g x) := by
  simp [List.filterMap_map, h.apply]

/-- Who owns a job has it due on its part of the loop. -/
theorem mem_select {wrap : K → J} (h : Unwraps f wrap) {loop : Loop J} {k : K} :
    k ∈ (loop.select f).ready ↔ wrap k ∈ loop.ready := by
  simp only [select, List.mem_filterMap, h _ k]
  simp

theorem mem_waiting_select {wrap : K → J} (h : Unwraps f wrap) {loop : Loop J} {gate : Gate}
    {k : K} : (gate, k) ∈ (loop.select f).waiting ↔ (gate, wrap k) ∈ loop.waiting := by
  simp only [select, List.mem_filterMap, Option.map_eq_some_iff, Prod.mk.injEq]
  constructor
  · rintro ⟨⟨_, j⟩, hmem, _, hj, rfl, rfl⟩
    obtain rfl := (h j _).mp hj
    exact hmem
  · intro hmem
    exact ⟨_, hmem, k, (h _ k).mpr rfl, rfl, rfl⟩

variable [DecidableEq J] [DecidableEq K]

theorem select_withdraw (h : Carries f wrap wrap') (loop : Loop J) (i : I) :
    (loop.withdraw (wrap i)).select f = (loop.select f).withdraw (wrap' i) := by
  have hnone : ∀ {j}, f j = none → j ≠ wrap i := by
    rintro j hj rfl
    simp [h.apply] at hj
  have hsome : ∀ {j k}, f j = some k → (k = wrap' i ↔ j = wrap i) := by
    intro j k hj
    rw [← h j i, hj, Option.some.injEq]
  have hany : (loop.select f).waiting.any (·.2 = wrap' i) = loop.waiting.any (·.2 = wrap i) := by
    simp only [select]
    induction loop.waiting with
    | nil => rfl
    | cons p rest ih =>
      cases hf : f p.2 with
      | none => simpa [hf, hnone hf] using ih
      | some k => simp [hf, hsome hf, ih]
  have hfilter : (loop.waiting.filter (·.2 ≠ wrap i)).filterMap
        (fun p => (f p.2).map fun k => (p.1, k)) =
      (loop.select f).waiting.filter (·.2 ≠ wrap' i) := by
    simp only [select]
    induction loop.waiting with
    | nil => rfl
    | cons p rest ih =>
      cases hf : f p.2 with
      | none => simpa [hf, hnone hf] using ih
      | some k =>
        by_cases hp : p.2 = wrap i
        · rw [List.filter_cons_of_neg (by simpa using hp)]
          simp only [List.filterMap_cons, hf, Option.map_some]
          rw [List.filter_cons_of_neg (by simpa using (hsome hf).mpr hp), ih]
        · rw [List.filter_cons_of_pos (by simpa using hp)]
          simp only [List.filterMap_cons, hf, Option.map_some]
          rw [List.filter_cons_of_pos (by simpa using fun e => hp ((hsome hf).mp e)), ih]
  unfold withdraw
  rw [hany]
  split
  · rw [← hfilter]
    simp [select, h.apply]
  · rfl

theorem select_withdrawAll (h : Carries f wrap wrap') (loop : Loop J) (is : List I) :
    (loop.withdrawAll (is.map wrap)).select f = (loop.select f).withdrawAll (is.map wrap') := by
  induction is generalizing loop with
  | nil => rfl
  | cons i rest ih =>
    simp only [withdrawAll, List.map_cons, List.foldl_cons] at ih ⊢
    rw [ih, select_withdraw h]

end Carries

variable [DecidableEq J] [DecidableEq K]

omit [DecidableEq K] in
theorem select_withdraw_none {f : J → Option K} {job : J} (h : f job = none) (loop : Loop J) :
    (loop.withdraw job).select f = loop.select f := by
  have hfilter : (loop.waiting.filter (·.2 ≠ job)).filterMap
        (fun p => (f p.2).map fun k => (p.1, k)) =
      loop.waiting.filterMap (fun p => (f p.2).map fun k => (p.1, k)) := by
    induction loop.waiting with
    | nil => rfl
    | cons p rest ih =>
      by_cases hp : p.2 = job
      · simpa [hp, h] using ih
      · rw [List.filter_cons_of_pos (by simpa using hp), List.filterMap_cons, List.filterMap_cons,
          ih]
  unfold withdraw
  split
  · simp only [select, List.filterMap_append, List.filterMap_cons, h, List.filterMap_nil,
      List.append_nil, hfilter]
  · rfl

omit [DecidableEq K] in
theorem select_withdrawAll_none {f : J → Option K} {jobs : List J} (h : ∀ job ∈ jobs, f job = none)
    (loop : Loop J) : (loop.withdrawAll jobs).select f = loop.select f := by
  induction jobs generalizing loop with
  | nil => rfl
  | cons job rest ih =>
    have hrest := ih (fun j hj => h j (List.mem_cons_of_mem _ hj)) (loop.withdraw job)
    simpa [withdrawAll, select_withdraw_none (h job List.mem_cons_self)] using hrest

/-! ## Jobs that come after all others -/

omit [DecidableEq J] [DecidableEq K] in
theorem Extends.refl (loop : Loop J) : loop.Extends loop := ⟨List.prefix_rfl, rfl⟩

omit [DecidableEq J] [DecidableEq K] in
theorem Extends.trans {l₁ l₂ l₃ : Loop J} (h₁ : l₁.Extends l₂) (h₂ : l₂.Extends l₃) :
    l₁.Extends l₃ := ⟨h₁.1.trans h₂.1, h₂.2.trans h₁.2⟩

omit [DecidableEq J] [DecidableEq K] in
theorem extends_postAll (loop : Loop J) (jobs : List J) : loop.Extends (loop.postAll jobs) :=
  ⟨List.prefix_append _ _, rfl⟩

omit [DecidableEq K] in
theorem extends_withdrawAll (loop : Loop J) (jobs : List J) :
    loop.Extends (loop.withdrawAll jobs) := by
  induction jobs generalizing loop with
  | nil => exact .refl loop
  | cons job rest ih =>
    refine Extends.trans ?_ (ih (loop.withdraw job))
    unfold withdraw
    split
    · exact ⟨List.prefix_append _ _, rfl⟩
    · exact .refl loop

end Loop

/-! ## Joins -/

namespace Join

variable {ε φ α : Type}

section Carries

variable {f : J → Option K} {wrap : JoinJob → J} {wrap' : JoinJob → K}

/-- A join that is carried on does the same to its part of the loop as to the whole. -/
theorem perform_select (h : Loop.Carries f wrap wrap') (loop : Loop J) (join : Join ε φ α)
    (job : JoinJob) :
    Prod.map id (Prod.map (Loop.select f) id) (join.perform wrap loop job) =
      join.perform wrap' (loop.select f) job := by
  cases job with
  | launch =>
    have hjobs := h.filterMap JoinJob.turn (List.range join.members.length)
    simp [perform, hjobs]
  | turn i =>
    have hturn : join.turn (loop.select f).isOpen i = join.turn loop.isOpen i := rfl
    simp only [perform, hturn]
    obtain ⟨events, after, halt⟩ := join.turn loop.isOpen i
    cases halt with
    | «at» gate => simp [Loop.select_park_some (h.apply _)]
    | finished => simp [h.apply]
    | idle => simp
  | hear i =>
    simp only [perform]
    obtain ⟨after, decided⟩ := join.hear i
    cases decided <;> simp [h.apply]
  | wake => simp [perform]

/-- What is cancelled is withdrawn from the join's part of the loop. -/
theorem abandon_select [DecidableEq J] [DecidableEq K] (h : Loop.Carries f wrap wrap')
    (loop : Loop J) (join : Join ε φ α) :
    Prod.map (Loop.select f) id (join.abandon wrap loop) =
      join.abandon wrap' (loop.select f) := by
  have hjobs := Loop.select_withdrawAll (h.comp JoinJob.turn) loop join.active
  simp only [abandon, Prod.map_apply, id_eq, Prod.mk.injEq, and_true]
  exact hjobs

end Carries

theorem perform_select_none {f : J → Option K} {wrap : JoinJob → J} (h : ∀ j, f (wrap j) = none)
    (loop : Loop J) (join : Join ε φ α) (job : JoinJob) :
    (join.perform wrap loop job).2.1.select f = loop.select f := by
  cases job with
  | launch => simp [perform, List.filterMap_map, h]
  | turn i =>
    simp only [perform]
    obtain ⟨events, after, halt⟩ := join.turn loop.isOpen i
    cases halt <;> simp [h, Loop.select_park_none (h _)]
  | hear i =>
    simp only [perform]
    obtain ⟨after, decided⟩ := join.hear i
    cases decided <;> simp [h]
  | wake => rfl

theorem abandon_select_none [DecidableEq J] {f : J → Option K} {wrap : JoinJob → J}
    (h : ∀ j, f (wrap j) = none) (loop : Loop J) (join : Join ε φ α) :
    (join.abandon wrap loop).1.select f = loop.select f := by
  apply Loop.select_withdrawAll_none
  intro job hjob
  obtain ⟨i, _, rfl⟩ := List.mem_map.mp hjob
  exact h _

theorem perform_extends (wrap : JoinJob → J) (loop : Loop J) (join : Join ε φ α) (job : JoinJob) :
    loop.Extends (join.perform wrap loop job).2.1 := by
  cases job with
  | launch => exact loop.extends_postAll _
  | turn i =>
    simp only [perform]
    obtain ⟨events, after, halt⟩ := join.turn loop.isOpen i
    cases halt with
    | «at» gate => exact ⟨List.prefix_rfl, rfl⟩
    | finished => exact loop.extends_postAll [wrap (.hear i)]
    | idle => exact .refl loop
  | hear i =>
    simp only [perform]
    obtain ⟨after, decided⟩ := join.hear i
    cases decided with
    | false => exact .refl loop
    | true => exact loop.extends_postAll [wrap .wake]
  | wake => exact .refl loop

end Join

/-! ## Records -/

/-- What a job leaves behind, with one owner's part of the loop. -/
def Done.select (f : J → Option K) (done : Done J) : Done K :=
  { record := done.record, loop := done.loop.select f, events := done.events,
    listener := done.listener }

namespace Record

/-- The resolution of a file does the same on its part of the loop as on the whole. -/
theorem perform_select [DecidableEq J] [DecidableEq K] {f : J → Option K} {wrap : FileJob → J}
    {wrap' : FileJob → K} (h : Loop.Carries f wrap wrap') (r : Record) (file : String)
    (registries : Nat → Registry) (loop : Loop J) (job : FileJob) :
    (r.perform wrap file registries loop job).select f =
      r.perform wrap' file registries (loop.select f) job := by
  have htell : ∀ jobs : List Nat,
      (jobs.map fun x => wrap (.tell x)).filterMap f = jobs.map fun x => wrap' (.tell x) :=
    h.filterMap _
  have hjoin : ∀ (work : Work) (job : JoinJob), (r.performJoin wrap loop work job).select f =
      r.performJoin wrap' (loop.select f) work job := by
    intro work job
    have hp := Join.perform_select (h.comp FileJob.join) loop work.join job
    simp only [performJoin, Done.select, id_eq, ← hp, Prod.map_fst, Prod.map_snd]
  have hcomplete : ∀ (work : Work) addresses,
      (r.complete wrap file (registries work.resolver) loop work addresses).select f =
        r.complete wrap' file (registries work.resolver) (loop.select f) work addresses := by
    intro work addresses
    simp [complete, finish, Done.select, htell]
  have hfail : ∀ (work : Work) ending,
      (r.fail wrap loop work ending).select f =
        r.fail wrap' (loop.select f) work ending := by
    intro work ending
    have ha := Join.abandon_select (h.comp FileJob.join) loop work.join
    simp [fail, finish, Done.select, ← ha, htell]
  unfold perform
  split
  · rfl
  · split
    · exact hcomplete _ _
    · exact hjoin _ _
  · split
    · exact hcomplete _ _
    · exact hfail _ _
    · exact hfail _ _
    · rfl
  · exact hjoin _ _
  · rfl

/-- **What a job of a resolution comes to.** It tells a waiter, does nothing, or ends the resolution
or is a job of the join of its specifiers. -/
theorem perform_induction [DecidableEq J] {wrap : FileJob → J} {r : Record} {file : String}
    {registries : Nat → Registry} {loop : Loop J} {motive : Done J → Prop}
    (tell : ∀ k, motive
      { record := { r with cell := (r.cell.tell k).1 }, loop, listener := (r.cell.tell k).2 })
    (idle : motive { record := r, loop })
    (complete : ∀ work, r.work = some work → ∀ addresses,
      motive (r.complete wrap file (registries work.resolver) loop work addresses))
    (fail : ∀ work, r.work = some work → ∀ ending, motive (r.fail wrap loop work ending))
    (join : ∀ work, r.work = some work → ∀ job, motive (r.performJoin wrap loop work job))
    (job : FileJob) : motive (r.perform wrap file registries loop job) := by
  unfold perform
  split
  · exact tell _
  · rename_i work hwork
    split
    · exact complete work hwork _
    · exact join work hwork _
  · rename_i work hwork
    split
    · exact complete work hwork _
    · exact fail work hwork _
    · exact fail work hwork _
    · exact idle
  · rename_i work _ _ hwork
    exact join work hwork _
  · exact idle

/-- The parts of all others stay as they are. -/
theorem perform_select_none [DecidableEq J] {f : J → Option K} {wrap : FileJob → J}
    (h : ∀ job, f (wrap job) = none) (r : Record) (file : String) (registries : Nat → Registry)
    (loop : Loop J) (job : FileJob) :
    (r.perform wrap file registries loop job).loop.select f = loop.select f := by
  have htell : ∀ jobs : List Nat, (jobs.map fun x => wrap (.tell x)).filterMap f = [] := by
    intro jobs
    simp [List.filterMap_map, h]
  refine perform_induction (motive := fun done => done.loop.select f = loop.select f)
    (fun _ => rfl) rfl (fun work _ addresses => ?_) (fun work _ ending => ?_)
    (fun work _ job => ?_) job
  · simp [complete, finish, htell]
  · have ha := Join.abandon_select_none (fun j => h (.join j)) loop work.join
    simp [fail, finish, htell, ha]
  · exact Join.perform_select_none (fun _ => h _) loop work.join job

theorem perform_extends [DecidableEq J] (wrap : FileJob → J) (r : Record) (file : String)
    (registries : Nat → Registry) (loop : Loop J) (job : FileJob) :
    loop.Extends (r.perform wrap file registries loop job).loop :=
  perform_induction (motive := fun done => loop.Extends done.loop) (fun _ => .refl loop)
    (.refl loop) (fun _ _ _ => loop.extends_postAll _)
    (fun _ _ _ => (loop.extends_withdrawAll _).trans (Loop.extends_postAll _ _))
    (fun work _ job => Join.perform_extends (fun j => wrap (.join j)) loop work.join job) job

end Record

end DepGraph
