import DepGraph.Proofs.Parts

/-!
# Files do not depend on each other

All files share one queue and one set of gates, and any of them may be in progress, end or fail at
any time. The injected functions answer a call by what is asked and on whose behalf, whatever else
has happened. So no file notices the others: erased from a run what is done to them, and their jobs,
the file comes to the same after every step that is left.

* `World.Erased` — what is left of an action when the files are erased that are not of a part.
* `World.Restricts.apply` — the one step: what is left of an action is done to the restricted world.
* `World.Session` — a run in which all jobs are carried out after every action.
* `World.Session.restrict` — from such a run the actions on other files are simply left out.
* `World.files_independent` — the files of a part are independent of all others.
-/

set_option autoImplicit false

namespace DepGraph

namespace World

variable {envs : Nat → Environment} {part : String → Bool} {w w' w₁ w₂ : World} {a : Action}

/-- What is left of an action when the files are erased that are not of the part. An action on a
file, a registration and the opening of a gate stay or go as a whole; a tick stays if it carries out
a job of a file of the part. A job of a walk, and its cancellation, leave what the walk does to
files of the part. -/
def Erased (part : String → Bool) (w : World) (a : Action) (steps : List Action) : Prop :=
  match a with
  | .tick =>
    match w.loop.next? with
    | none => steps = []
    | some (.file id _, _) => steps = if part id.name then [.tick] else []
    | some (.walk .., _) => ∀ b ∈ steps, b.within part = true ∧ Action.tick.brings b = true
  | .cancelWalk _ => ∀ b ∈ steps, b.within part = true ∧ a.brings b = true
  | _ => steps = [a].filter (Action.within part)

namespace Restricts

/-! ## One action -/

theorem apply_within (h : Restricts part w w') (ha : a.within part = true) :
    Restricts part (w.apply envs a) (w'.apply envs a) := by
  cases a with
  | add name text => exact h.add name text
  | setText name text => exact h.setText ha text
  | register resolver address => exact h.register resolver address
  | resolve resolver name => exact h.resolve ha _ _ _
  | resolveWithoutLoop resolver name => exact h.resolveWithoutLoop ha _
  | giveUp id waiter => exact h.giveUp ha waiter
  | release gate => exact h.release gate
  | tick | walk | cancelWalk => cases ha

theorem apply_other (h : Restricts part w w') (ha : a.within part = false)
    (hstep : a.isWalked = false) : Restricts part (w.apply envs a) w' := by
  cases a with
  | add name text => exact h.add_other ha text
  | setText name text => exact h.setText_other ha text
  | resolve resolver name => exact h.resolve_other ha _ _ _
  | resolveWithoutLoop resolver name => exact h.resolveWithoutLoop_other ha _
  | giveUp id waiter => exact h.giveUp_other ha waiter
  | walk resolver entries => exact h.aside (aside_walk w resolver entries)
  | register | release => cases ha
  | tick | cancelWalk => cases hstep

/-- What is due first is due first in the restricted world, if it is a job of a file of the part. -/
theorem next? (h : Restricts part w w') {id : FileId} {job : FileJob} {loop : Loop Job}
    (hnext : w.loop.next? = some (.file id job, loop)) (hid : part id.name = true) :
    w'.loop.next? = some (.file id job, loop.select (Job.within? part)) := by
  rw [h.loop]
  exact next?_select hnext (Job.within?_file hid job)

theorem tick_within (h : Restricts part w w') {id : FileId} {job : FileJob} {loop : Loop Job}
    (hnext : w.loop.next? = some (.file id job, loop)) (hid : part id.name = true) :
    Restricts part (w.tick envs) (w'.tick envs) := by
  simp only [tick, hnext, h.next? hnext hid, perform]
  exact (h.withLoop loop).performFile hid job

theorem tick_other (h : Restricts part w w') (hw : w.Tidy) {id : FileId} {job : FileJob}
    {loop : Loop Job} (hnext : w.loop.next? = some (.file id job, loop))
    (hid : part id.name = false) : Restricts part (w.tick envs) w' := by
  have hloop := select_next? hnext (Job.within?_other hid job)
  simp only [tick, hnext, perform]
  exact (h.withLoop_other hloop).performFile_other (fun r hr work => hw.own id r work hr) hid job

/-- **What is left of an action** is done to the restricted world. -/
theorem apply (envs : Nat → Environment) (h : Restricts part w w') (hw : w.Tidy) (a : Action) :
    ∃ steps, w.Erased part a steps ∧ Restricts part (w.apply envs a) (w'.run envs steps) := by
  cases hstep : a.isWalked with
  | false =>
    refine ⟨[a].filter (Action.within part), ?_, ?_⟩
    · cases a with
      | tick | cancelWalk => cases hstep
      | _ => rfl
    · cases ha : a.within part with
      | true => simpa [ha, run] using h.apply_within ha
      | false => simpa [ha, run] using h.apply_other ha hstep
  | true =>
    cases a with
    | tick =>
      rcases tick_cases envs hw with
        ⟨hnext, htick⟩ | ⟨id, job, loop, hnext, -⟩ | ⟨k, job, loop, hnext, hmoves⟩
      · exact ⟨[], by simp [Erased, hnext], (congrArg (Restricts part · w') htick).mpr h⟩
      · cases hid : part id.name with
        | true => exact ⟨[.tick], by simp [Erased, hnext, hid], h.tick_within hnext hid⟩
        | false => exact ⟨[], by simp [Erased, hnext, hid], h.tick_other hw hnext hid⟩
      · have hpopped := h.withLoop_other (select_next? hnext (Job.within?_walk k job))
        obtain ⟨steps, hsteps, hafter⟩ := hpopped.moves hmoves rfl
        exact ⟨steps, by simpa only [Erased, hnext] using hsteps, hafter⟩
    | cancelWalk k => exact h.moves (apply_moves hw.walks (by simp)) rfl
    | _ => cases hstep

theorem initial (part : String → Bool) (options : Options) (libName : String)
    (registries : Nat → Registry) :
    Restricts part (initial options libName registries) (initial options libName registries) :=
  ⟨rfl, rfl, fun _ _ => rfl, fun _ _ => rfl, rfl, rfl, rfl⟩

end Restricts

/-! ## Runs -/

/-- What is left of the actions of a run, one after the other: if something can always be left of
the next action that keeps `P`, then there is a way to erase from every run. -/
theorem exists_erasing {A B : Type} {P : List A → List B → Prop} {Q : List A → A → List B → Prop}
    (hnil : P [] []) (hconcat : ∀ before left a, P before left →
      ∃ steps, Q before a steps ∧ P (before ++ [a]) (left ++ steps)) :
    ∃ erase : List A → List B, erase [] = [] ∧
      (∀ before a, ∃ steps, erase (before ++ [a]) = erase before ++ steps ∧ Q before a steps) ∧
      ∀ actions, P actions (erase actions) := by
  choose! steps hQ hP using hconcat
  -- The actions are given from the last to the first.
  let backwards : List A → List B := fun actions =>
    actions.rec [] fun a rest left => left ++ steps rest.reverse left a
  have hlast : ∀ before a, backwards (before ++ [a]).reverse =
      backwards before.reverse ++ steps before (backwards before.reverse) a := by
    intro before a
    simp [backwards]
  have hkeeps : ∀ actions, P actions (backwards actions.reverse) := by
    intro actions
    induction actions using List.reverseRec with
    | nil => exact hnil
    | append_singleton before a ih =>
      rw [hlast]
      exact hP before _ a ih
  exact ⟨fun actions => backwards actions.reverse, rfl,
    fun before a => ⟨_, hlast before a, hQ before _ a (hkeeps before)⟩, hkeeps⟩

/-! ## Runs in which all jobs are carried out -/

/-- A run in which jobs are carried out until none is due after every action. -/
inductive Session (envs : Nat → Environment) : World → List Action → World → Prop
  | nil (w : World) : Session envs w [] w
  | cons {w w₁ w₂ : World} {a : Action} {rest : List Action} (n : Nat)
    (hsettles : (w.apply envs a).settle envs n = w₁) (hsettled : w₁.settled = true)
    (hrest : Session envs w₁ rest w₂) : Session envs w (a :: rest) w₂

/-- There are no walks in the world, and nobody listens to any waiter. -/
def Plain (w : World) : Prop := Restricts (fun _ => true) w w

theorem Restricts.settled (h : Restricts part w w') (hw : w.settled = true) :
    w'.settled = true := by
  have hready : w.loop.ready = [] := by simpa [World.settled, Loop.idle] using hw
  simp [World.settled, Loop.idle, h.loop, Loop.select, hready]

theorem not_settled {job : Job} {loop : Loop Job} (h : w.loop.next? = some (job, loop)) :
    ¬w.settled = true := by
  intro hsettled
  have hready : w.loop.ready = [] := by simpa [World.settled, Loop.idle] using hsettled
  simp [Loop.next?, hready] at h

theorem settle_of_settled (h : w.settled = true) (n : Nat) : w.settle envs n = w := by
  cases n with
  | zero => rfl
  | succ n => rw [settle, if_pos h]

/-- What is due in a plain world is a job of a file. -/
theorem Plain.next? (h : w.Plain) {k : Nat} {job : WalkJob} {loop : Loop Job} :
    w.loop.next? ≠ some (.walk k job, loop) := by
  intro hnext
  have hmem : Job.walk k job ∈ w.loop.ready := by
    cases hready : w.loop.ready with
    | nil => simp [Loop.next?, hready] at hnext
    | cons first rest =>
      simp only [Loop.next?, hready, Option.some.injEq, Prod.mk.injEq] at hnext
      exact hnext.1 ▸ List.mem_cons_self
  rw [h.loop] at hmem
  obtain ⟨job', -, hjob'⟩ := List.mem_filterMap.mp hmem
  cases job' <;> simp [Job.within?] at hjob'

theorem cancelWalk_of_none (h : w.walks = []) (k : Nat) : w.cancelWalk k = w := by
  simp [cancelWalk, h]

theorem Plain.tick (h : w.Plain) (hw : w.Tidy) : (w.tick envs).Plain := by
  rcases tick_cases envs hw with ⟨-, htick⟩ | ⟨id, job, loop, hnext, -⟩ | ⟨k, job, loop, hnext, -⟩
  · rwa [htick]
  · exact Restricts.tick_within h hnext rfl
  · exact absurd hnext h.next?

theorem Plain.apply (h : w.Plain) (hw : w.Tidy)
    (ha : ∀ resolver entries, a ≠ .walk resolver entries) : (w.apply envs a).Plain := by
  cases a with
  | tick => exact h.tick hw
  | walk resolver entries => exact absurd rfl (ha resolver entries)
  | cancelWalk k => exact (congrArg Plain (cancelWalk_of_none h.walks k)).mpr h
  | _ => exact Restricts.apply_within h rfl

/-- Of the jobs that are due in a plain world, those of the part are carried out. -/
theorem Restricts.settle (h : Restricts part w w') (hw : w.Tidy) (hplain : w.Plain) (n : Nat)
    (hsettled : (w.settle envs n).settled = true) :
    (∃ m, Restricts part (w.settle envs n) (w'.settle envs m)) ∧ (w.settle envs n).Tidy ∧
      (w.settle envs n).Plain := by
  induction n generalizing w w' with
  | zero => exact ⟨⟨0, h⟩, hw, hplain⟩
  | succ n ih =>
    by_cases hidle : w.settled = true
    · rw [settle_of_settled hidle]
      exact ⟨⟨0, h⟩, hw, hplain⟩
    rw [World.settle, if_neg hidle] at hsettled ⊢
    have htidy := tidy_apply envs hw .tick
    rcases tick_cases envs hw with
      ⟨-, htick⟩ | ⟨id, job, loop, hnext, -⟩ | ⟨k, job, loop, hnext, -⟩
    · exact ih ((congrArg (Restricts part · w') htick).mpr h) htidy (hplain.tick hw) hsettled
    · cases hid : part id.name with
      | true =>
        obtain ⟨⟨m, hm⟩, hrest⟩ := ih (h.tick_within hnext hid) htidy (hplain.tick hw) hsettled
        refine ⟨⟨m + 1, ?_⟩, hrest⟩
        rwa [World.settle, if_neg (not_settled (h.next? hnext hid))]
      | false => exact ih (h.tick_other hw hnext hid) htidy (hplain.tick hw) hsettled
    · exact absurd hnext hplain.next?

/-- An action that is not of the part does nothing to a settled world. -/
theorem Restricts.apply_erased (h : Restricts part w w') (hw : w.Tidy) (hplain : w.Plain)
    (hidle : w'.settled = true) (ha : a.within part = false) :
    Restricts part (w.apply envs a) w' := by
  cases hstep : a.isWalked with
  | false => exact h.apply_other ha hstep
  | true =>
    cases a with
    | tick =>
      rcases tick_cases envs hw with
        ⟨-, htick⟩ | ⟨id, job, loop, hnext, -⟩ | ⟨k, job, loop, hnext, -⟩
      · exact (congrArg (Restricts part · w') htick).mpr h
      · cases hid : part id.name with
        | true => exact absurd hidle (not_settled (h.next? hnext hid))
        | false => exact h.tick_other hw hnext hid
      · exact absurd hnext hplain.next?
    | cancelWalk k =>
      exact (congrArg (Restricts part · w') (cancelWalk_of_none hplain.walks k)).mpr h
    | _ => cases hstep

/-- **Where all jobs are carried out after every action**, what is done to other files is simply
left out. -/
theorem Session.restrict {actions : List Action} (hs : Session envs w actions w₂)
    (h : Restricts part w w') (hw : w.Tidy) (hplain : w.Plain) (hidle : w'.settled = true)
    (hwalks : ∀ resolver entries, .walk resolver entries ∉ actions) :
    ∃ w₂', Session envs w' (actions.filter (Action.within part)) w₂' ∧ Restricts part w₂ w₂' ∧
      w₂.Plain := by
  induction hs generalizing w' with
  | nil w => exact ⟨w', .nil w', h, hplain⟩
  | @cons w w₁ w₂ a rest n hsettles hsettled hrest ih =>
    have htidy := tidy_apply envs hw a
    have hnext : (w.apply envs a).Plain :=
      hplain.apply hw fun resolver entries e => hwalks resolver entries (e ▸ List.mem_cons_self)
    have hlater : ∀ resolver entries, .walk resolver entries ∉ rest :=
      fun resolver entries hmem => hwalks resolver entries (List.mem_cons_of_mem _ hmem)
    subst hsettles
    cases ha : a.within part with
    | true =>
      have hdone : Restricts part (w.apply envs a) (w'.apply envs a) := h.apply_within ha
      obtain ⟨⟨m, hm⟩, hsettledTidy, hsettledPlain⟩ := hdone.settle htidy hnext n hsettled
      have hidle' := hm.settled hsettled
      obtain ⟨w₂', hsession, hfinal⟩ := ih hm hsettledTidy hsettledPlain hidle' hlater
      rw [List.filter_cons_of_pos ha]
      exact ⟨w₂', .cons m rfl hidle' hsession, hfinal⟩
    | false =>
      obtain ⟨⟨m, hm⟩, hsettledTidy, hsettledPlain⟩ :=
        (h.apply_erased hw hplain hidle ha).settle htidy hnext n hsettled
      rw [settle_of_settled hidle] at hm
      rw [List.filter_cons_of_neg (by simp [ha])]
      exact ih hm hsettledTidy hsettledPlain hidle hlater

/-- **Files are independent of each other.** Take any part of the files, a single one say, and erase
from a run what is done to the others, with their jobs. Step by step the run that is left leads to
the same world, restricted to the part: its files are there with the same texts, their resolutions
have come equally far or have ended in the same way, with the same dependencies or the same first
failure, everyone who waits has the same outcome, the same calls were made, and the same jobs are
due or wait. Of a walk is left what it does to files of the part. Without walks, and where all jobs
are carried out after every action, the actions on other files are simply left out. -/
theorem files_independent (envs : Nat → Environment) (options : Options) (libName : String)
    (registries : Nat → Registry) (part : String → Bool) :
    let start := World.initial options libName registries
    (∃ erase : List Action → List Action, erase [] = [] ∧
      (∀ before a, ∃ steps, erase (before ++ [a]) = erase before ++ steps ∧
        (start.run envs before).Erased part a steps) ∧
      ∀ actions, Restricts part (start.run envs actions) (start.run envs (erase actions))) ∧
    ∀ actions w, Session envs start actions w →
      (∀ resolver entries, .walk resolver entries ∉ actions) →
      ∃ w', Session envs start (actions.filter (Action.within part)) w' ∧ Restricts part w w' ∧
        ∀ name, part name = true → w'.store.generations name = w.store.generations name := by
  intro start
  have htidy : start.Tidy := tidy_initial options libName registries
  refine ⟨exists_erasing
    (P := fun before left => Restricts part (start.run envs before) (start.run envs left))
    (Restricts.initial part options libName registries) fun before left a h => ?_,
    fun actions w hs hwalks => ?_⟩
  · obtain ⟨steps, hsteps, hafter⟩ := h.apply envs (tidy_run envs htidy before) a
    refine ⟨steps, hsteps, ?_⟩
    rwa [run_concat, run_append]
  · obtain ⟨w', hsession, h, hplain⟩ := hs.restrict
      (Restricts.initial part options libName registries) htidy
      (Restricts.initial _ options libName registries) rfl hwalks
    refine ⟨w', hsession, h, fun name hname => ?_⟩
    rw [h.generations name hname, ← hplain.generations name rfl]

/-- Every file has one reference. Its address is given once a gate is open, except that the file
`bad` is refused at once. -/
def unequal : Nat → Environment := fun _ =>
  { address := fun _ _ origin =>
      if origin = "bad" then { outcome := .raised ⟨"OSError", "boom"⟩ }
      else { gates := ["g"], outcome := .returned "dep.ts" }
    descriptor := fun _ _ => { outcome := .returned ⟨[]⟩ }
    source := fun _ _ => { outcome := .returned "" }
    extract := fun _ => .ok ({ fileReferences := ["dep"] }, []) }

/-- Two files are asked for side by side. One fails while the other waits. -/
def mixed : List Action :=
  [.add "bad" "", .add "good" "", .resolve 0 "good", .resolve 0 "bad", .release "g"]

/-- The file that waits comes to the same as where nobody has added or asked for the other. -/
theorem files_independent_unequal :
    ∃ w w', Session unequal (initial {} defaultLibName fun _ => {}) mixed w ∧
      Session unequal (initial {} defaultLibName fun _ => {})
        [.add "good" "", .resolve 0 "good", .release "g"] w' ∧
      w'.store.generations "good" = w.store.generations "good" ∧
      (w.store.find? "good").bind (·.dependencies) = some ⟨[("dep", some "dep.ts")], ["dep.ts"]⟩ ∧
      (w.store.find? "bad").bind (·.dependencies) = none := by
  have hs : Session unequal (initial {} defaultLibName fun _ => {}) mixed _ :=
    .cons 0 rfl (by decide +kernel) <| .cons 0 rfl (by decide +kernel) <|
      .cons 9 rfl (by decide +kernel) <| .cons 9 rfl (by decide +kernel) <|
        .cons 9 rfl (by decide +kernel) <| .nil _
  obtain ⟨-, hsession⟩ := files_independent unequal {} defaultLibName (fun _ => {}) (· == "good")
  obtain ⟨w', hs', -, hsame⟩ := hsession mixed _ hs (by simp [mixed])
  exact ⟨_, w', hs, hs', hsame "good" rfl, by decide +kernel, by decide +kernel⟩

end World

end DepGraph
