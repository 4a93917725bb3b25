import Mathlib.Data.Finset.Card
import Mathlib.Data.Finset.Dedup
import DepGraph.Proofs.Quiet

/-!
# What is added

An action adds files and changes the rest in place. A name that is new comes last, and every other
one keeps its place.

* `World.kept_additions` — besides adding its files, an action leaves the names and the numbers of
  their files as they are.
* `World.allAdditions` — all the files that a run adds; `World.names_run` — the names after a run.
* `World.lane?_additions` — a file that an action adds is new once all of its files are added.
* `World.current?_additions` — it is found under its name after the action.
-/

set_option autoImplicit false

namespace DepGraph.World

variable {envs : Nat → Environment} {w : World} {a : Action} {name text : String}
  {files : List (String × String)}

/-! ## One action -/

theorem kept_walkAdditions_wake (env : Environment) {k : Nat} {x : Walk}
    (hx : w.walks[k]? = some x) :
    ((w.walkAdditions k .wake).foldl (fun w (name, text) => w.add name text) w).store.Kept
      (w.wakeWalk env k x).store := by
  simp only [walkAdditions, hx]
  unfold wakeWalk
  split
  · exact .refl _
  · cases hp : x.phase with
    | fetching missing =>
      cases hv : x.fetches.tally.verdict with
      | none => exact .refl _
      | some verdict =>
        cases verdict with
        | returned texts => exact (frames_kept k).resolveRound _ _ _
        | raised cause => exact .refl _
        | cancelled => exact .refl _
    | resolving waiters tally =>
      simp only
      split
      · exact (frames_kept k).finishRound env hx _
      · exact .refl _
      · exact .refl _
      · exact .refl _
    | starting => exact .refl _
    | finished => exact .refl _

theorem kept_walkAdditions (env : Environment) (w : World) (k : Nat) (job : WalkJob) :
    ((w.walkAdditions k job).foldl (fun w (name, text) => w.add name text) w).store.Kept
      (w.performWalk env k job).store := by
  cases hx : w.walks[k]? with
  | none =>
    simp only [walkAdditions, performWalk, hx]
    exact .refl _
  | some x =>
    cases job with
    | start =>
      simp only [walkAdditions, performWalk, hx, ite_self]
      split
      · exact .refl _
      · exact (frames_kept k).startRound _ _ _
    | fetch job =>
      cases job with
      | wake =>
        have hwakes := kept_walkAdditions_wake env hx
        simp only [performWalk, hx]
        exact hwakes
      | _ =>
        simp only [walkAdditions, performWalk, hx, ite_self]
        exact .refl _
    | resolved place =>
      simp only [walkAdditions, performWalk, hx, ite_self]
      exact (frames_kept k).hearWalk w x place
    | wake =>
      simp only [performWalk, hx]
      exact kept_walkAdditions_wake env hx

/-- **Besides adding its files**, an action changes files in place. -/
theorem kept_additions (envs : Nat → Environment) (hw : w.Tidy) (a : Action) :
    ((w.additions a).foldl (fun w (name, text) => w.add name text) w).store.Kept
      (w.apply envs a).store := by
  have hmoves : a ≠ .tick → (∀ name text, a ≠ .add name text) →
      w.store.Kept (w.apply envs a).store :=
    fun htick hadd => Moves.kept (apply_moves hw.walks htick) htick hadd
  cases a with
  | tick =>
    simp only [additions, apply, tick]
    cases hnext : w.loop.next? with
    | none => exact .refl _
    | some p =>
      obtain ⟨job, loop⟩ := p
      cases job with
      | file id job => exact store_performFile { w with loop } id job
      | walk k job =>
        have hkept := kept_walkAdditions (envs ((w.walks[k]?.map Walk.resolver).getD 0))
          ({ w with loop } : World) k job
        rw [store_addAll] at hkept ⊢
        exact hkept
  | add name text => exact .refl _
  | _ => exact hmoves (by simp) (by simp)

/-- A walk waits for no text twice. -/
theorem nodup_additions (h : w.Distinct) (a : Action) : ((w.additions a).map (·.1)).Nodup := by
  cases a with
  | tick =>
    simp only [additions]
    split
    · rename_i k job loop _
      unfold walkAdditions
      split
      · exact List.nodup_nil
      · rename_i x hx
        have hawaited := (h k x hx).awaited
        have hzip : ∀ (missing texts : List String), x.phase = .fetching missing →
            ((missing.zip texts).map (·.1)).Nodup := by
          intro missing texts hp
          rw [Walk.awaited, hp] at hawaited
          exact hawaited.sublist (sublist_zip missing texts)
        split
        · exact List.nodup_nil
        · split
          · split
            · rename_i missing texts hp _
              exact hzip missing texts hp
            · exact List.nodup_nil
          · split
            · rename_i missing texts hp _
              exact hzip missing texts hp
            · exact List.nodup_nil
          · exact List.nodup_nil
    · exact List.nodup_nil
  | add name text => exact List.nodup_singleton name
  | _ => exact List.nodup_nil

/-! ## Names -/

theorem names_foldl_add (files : List (String × String)) (w : World) :
    (files.foldl (fun w (name, text) => w.add name text) w).store.names =
      (files.map (·.1)).foldl (fun acc x => if acc.contains x then acc else acc ++ [x])
        w.store.names := by
  induction files generalizing w with
  | nil => rfl
  | cons file rest ih =>
    refine (ih (w.add file.1 file.2)).trans ?_
    rw [store_add, Store.names_add]
    simp [List.foldl_cons]

/-- All the files that a list of actions adds, in order. -/
def allAdditions (envs : Nat → Environment) : World → List Action → List (String × String)
  | _, [] => []
  | w, a :: rest => w.additions a ++ allAdditions envs (w.apply envs a) rest

theorem names_run_foldl (envs : Nat → Environment) (hw : w.Tidy) (actions : List Action) :
    (w.run envs actions).store.names =
      ((allAdditions envs w actions).map (·.1)).foldl
        (fun acc x => if acc.contains x then acc else acc ++ [x]) w.store.names := by
  induction actions generalizing w with
  | nil => rfl
  | cons a rest ih =>
    rw [allAdditions, List.map_append, List.foldl_append, ← names_foldl_add,
      ← (kept_additions envs hw a).names]
    exact ih (tidy_apply envs hw a)

/-- **The names after a run** are those of the files that it has added, in order of first
addition. -/
theorem names_run (envs : Nat → Environment) (options : Options) (libName : String)
    (registries : Nat → Registry) (actions : List Action) :
    ((initial options libName registries).run envs actions).store.names =
      Dependencies.distinct
        ((allAdditions envs (initial options libName registries) actions).map (·.1)) :=
  names_run_foldl envs (tidy_initial options libName registries) actions

/-- There are as many of them as names were ever added. -/
theorem length_names_run (envs : Nat → Environment) (options : Options) (libName : String)
    (registries : Nat → Registry) (actions : List Action) :
    ((initial options libName registries).run envs actions).store.names.length =
      ((allAdditions envs (initial options libName registries) actions).map
        (·.1)).toFinset.card := by
  rw [names_run]
  generalize (allAdditions envs (initial options libName registries) actions).map (·.1) = added
  have hsame : added.toFinset = (Dependencies.distinct added).toFinset :=
    List.toFinset.ext fun name => by simp [Dependencies.mem_distinct]
  rw [hsame, List.toFinset_card_of_nodup (Dependencies.nodup_distinct added)]

/-- **Every name keeps its place.** -/
theorem idxOf_run (envs : Nat → Environment) (hw : w.Tidy) (hknown : w.store.contains name = true)
    (actions : List Action) :
    (w.run envs actions).store.names.idxOf name = w.store.names.idxOf name := by
  rw [names_run_foldl envs hw, Dependencies.distinct_foldl]
  exact List.idxOf_append_of_mem ((Store.contains_iff _ _).mp hknown)

/-! ## The files that are added -/

/-- A file that is added, among others of other names, is new. -/
theorem lane?_additions (envs : Nat → Environment) (hw : w.Tidy) (hnodup : (files.map (·.1)).Nodup)
    (hmem : (name, text) ∈ files) :
    (files.foldl (fun w (name, text) => w.add name text) w).lane? (w.store.next name) =
      some (Lane.fresh text w.loop.opened) := by
  induction files generalizing w with
  | nil => cases hmem
  | cons file rest ih =>
    obtain ⟨first, text'⟩ := file
    obtain ⟨hfirst, hrest⟩ := List.nodup_cons.mp hnodup
    rcases List.mem_cons.mp hmem with heq | hmem'
    · cases heq
      exact lane?_addAll rest (lane?_add_next hw name text)
    · have hne : name ≠ first := fun e =>
        hfirst (e ▸ List.mem_map_of_mem (f := (·.1)) hmem')
      have hnext : (w.add first text').store.next name = w.store.next name := by
        rw [store_add, Store.next, Store.generations_add, if_neg hne]
        rfl
      have htidy : (w.add first text').Tidy := tidy_apply envs hw (.add first text')
      have hlater := ih htidy hrest hmem'
      rw [hnext, loop_add] at hlater
      exact hlater

/-- It is the one that is found under its name after the action. -/
theorem current?_additions (envs : Nat → Environment) (hw : w.Tidy) (hdistinct : w.Distinct)
    (hadd : (name, text) ∈ w.additions a) :
    (w.apply envs a).store.current? name = some (w.store.next name) := by
  have hnodup := nodup_additions hdistinct a
  have hmem : name ∈ (w.additions a).map (·.1) := List.mem_map_of_mem (f := (·.1)) hadd
  have hkept := kept_additions envs hw a
  have hlength := length_generations_addAll hnodup w name
  rw [if_pos hmem] at hlength
  have hknown : (((w.additions a).foldl (fun w (name, text) => w.add name text) w).store.contains
      name) = true := by
    rw [Store.contains_iff, names_foldl_add, Dependencies.mem_distinct_foldl]
    exact .inr hmem
  rw [hkept.current?, Store.current?, if_pos hknown, hlength]
  rfl

end DepGraph.World
