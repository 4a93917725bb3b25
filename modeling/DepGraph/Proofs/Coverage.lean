import DepGraph.Proofs.AllOrNothing
import DepGraph.Proofs.Walks

/-!
# What a run does to what a walk has covered

* `World.getElem?_performWalk`, `World.kept_performWalk` — a job of another walk leaves the walk as
  it is, and adds no file unless that walk waits for texts.
* `World.tracks_apply` — every action keeps track of what a walk has covered, as long as nobody else
  adds files.
* `World.tracks_run` — and so does every run.
-/

set_option autoImplicit false

namespace DepGraph

/-- The walk waits for texts. -/
def Walk.IsFetching (x : Walk) : Prop := ∃ missing, x.phase = .fetching missing

namespace World

variable {env : Nat → Environment} {w w' : World} {a : Action} {j k : Nat} {x y : Walk}
  {origin : Store} {entries : List String}

/-! ## Other walks -/

theorem getElem?_modifyWalk_ne (h : j ≠ k) (w : World) (change : Walk → Walk) :
    (w.modifyWalk j change).walks[k]? = w.walks[k]? :=
  (getElem?_modifyWalk _ _ _ _).trans (if_neg h)

theorem walks_addAll (files : List (String × String)) (w : World) :
    (files.foldl (fun w (name, text) => w.add name text) w).walks = w.walks := by
  induction files generalizing w with
  | nil => rfl
  | cons file rest ih => exact (ih _).trans (walks_add w file.1 file.2)

theorem frames_walk (h : j ≠ k) : Frames j fun w w' => w'.walks[k]? = w.walks[k]? where
  refl _ := rfl
  trans h h' := h'.trans h
  ask env resolver w name _ := congrArg (·[k]?) (walks_resolve env w resolver name _)
  note _ _ := rfl
  modifyWalk w change _ := getElem?_modifyWalk_ne h w change
  post _ _ := rfl
  fetch _ _ _ := rfl

/-- A job of another walk leaves the walk as it is. -/
theorem getElem?_performWalk (h : j ≠ k) (env : Environment) (w : World) (job : WalkJob) :
    (w.performWalk env j job).walks[k]? = w.walks[k]? :=
  (frames_walk h).performWalk env w job
    (fun _ _ _ _ w name text => congrArg (·[k]?) (walks_add w name text)) fun _ _ _ _ => rfl

theorem frames_kept (k : Nat) : Frames k fun w w' => w.store.Kept w'.store where
  refl _ := .refl _
  trans h h' := h.trans h'
  ask env resolver w name _ := kept_resolve env w resolver name _
  note _ _ := .refl _
  modifyWalk _ _ _ := .refl _
  post _ _ := .refl _
  fetch _ _ _ := .refl _

/-- A job of a walk adds no file unless the walk waits for texts. -/
theorem kept_performWalk (h : ∀ x, w.walks[k]? = some x → ¬x.IsFetching) (env : Environment)
    (job : WalkJob) : w.store.Kept (w.performWalk env k job).store :=
  (frames_kept k).performWalk env w job (fun x missing hx hp => absurd ⟨missing, hp⟩ (h x hx))
    fun _ _ _ _ => .refl _

/-! ## Actions -/

/-- The walks of two worlds at place `k` have covered the same and wait for the same. -/
def Alike (k : Nat) (w w' : World) : Prop :=
  ∀ x, w.walks[k]? = some x → ∃ y, w'.walks[k]? = some y ∧ y.visited = x.visited ∧
    y.pending = x.pending ∧ y.phase = x.phase ∧ y.outcome = x.outcome

theorem alike_of_walks (h : w'.walks[k]? = w.walks[k]?) : Alike k w w' :=
  fun x hx => ⟨x, h.trans hx, rfl, rfl, rfl, rfl⟩

theorem Alike.trans {w₁ w₂ w₃ : World} (h₁ : Alike k w₁ w₂) (h₂ : Alike k w₂ w₃) :
    Alike k w₁ w₃ := by
  intro x hx
  obtain ⟨y, hy, hv, hp, hphase, hout⟩ := h₁ x hx
  obtain ⟨z, hz, hv', hp', hphase', hout'⟩ := h₂ y hy
  exact ⟨z, hz, hv'.trans hv, hp'.trans hp, hphase'.trans hphase, hout'.trans hout⟩

theorem alike_modifyWalk (w : World) (j : Nat) {change : Walk → Walk}
    (h : ∀ x, (change x).visited = x.visited ∧ (change x).pending = x.pending ∧
      (change x).phase = x.phase ∧ (change x).outcome = x.outcome) :
    Alike k w (w.modifyWalk j change) := by
  intro x hx
  rw [getElem?_modifyWalk]
  split
  · exact ⟨change x, by rw [hx]; rfl, h x⟩
  · exact ⟨x, hx, rfl, rfl, rfl, rfl⟩

theorem alike_cancelFetches (w : World) (j k : Nat) (x : Walk) :
    Alike k w (w.cancelFetches j x).1 := by
  unfold cancelFetches
  split
  · exact alike_of_walks rfl
  · exact alike_modifyWalk { w with loop := _ } j fun _ => ⟨rfl, rfl, rfl, rfl⟩

theorem alike_cancelWalk (w : World) (j k : Nat) : Alike k w (w.cancelWalk j) := by
  refine cancelWalk_induction (R := Alike k) (fun _ => alike_of_walks rfl) Alike.trans
    (fun w id n => ?_) (fun w x _ => alike_cancelFetches w j k x) (fun w => ?_) w
  · exact alike_of_walks (congrArg (·[k]?) (walks_giveUp w id n))
  · exact alike_modifyWalk w j fun _ => ⟨rfl, rfl, rfl, rfl⟩

/-- What else is asked of a world leaves every walk as far as it is. -/
theorem alike_apply (ha : a ≠ .tick) : Alike k w (w.apply env a) := by
  cases a with
  | tick => exact absurd rfl ha
  | add name text => exact alike_of_walks (congrArg (·[k]?) (walks_add w name text))
  | setText name text => exact alike_of_walks (congrArg (·[k]?) (walks_setText w name text))
  | register resolver address => exact alike_of_walks rfl
  | resolve resolver name =>
    exact alike_of_walks (congrArg (·[k]?) (walks_resolve (env resolver) w resolver name none))
  | resolveWithoutLoop resolver name =>
    exact alike_of_walks (congrArg (·[k]?) (walks_resolveWithoutLoop (env resolver) w name none))
  | giveUp file waiter => exact alike_of_walks (congrArg (·[k]?) (walks_giveUp w file waiter))
  | walk resolver entries =>
    intro x hx
    have hlt := (List.getElem?_eq_some_iff.mp hx).1
    exact ⟨x, (List.getElem?_append_left hlt).trans hx, rfl, rfl, rfl, rfl⟩
  | cancelWalk j => exact alike_cancelWalk w j k
  | release gate => exact alike_of_walks rfl

theorem Moves.kept (h : Moves env a w w') (ha : a ≠ .tick)
    (hadd : ∀ name text, a ≠ .add name text) :
    w.store.Kept w'.store := by
  induction h with
  | refl => exact .refl _
  | tail _ hmove ih =>
    rcases hmove.kept with ⟨name, text, -, hwhich⟩ | hkept
    · rcases hwhich with hwhich | hwhich
      · exact absurd hwhich (hadd name text)
      · exact absurd hwhich ha
    · exact ih.trans hkept

/-- A walk whose store grew, with no new names, is as far as it was. -/
theorem Tracks.later (h : w.Tracks origin entries k) (halike : Alike k w w')
    (hkept : w.store.Kept w'.store) (hlater : w.store.Later w'.store) :
    w'.Tracks origin entries k := by
  obtain ⟨x, hx, hcovers, hattends, hreturns⟩ := h
  obtain ⟨y, hy, hv, hp, hphase, hout⟩ := halike x hx
  have hcovers' := hcovers.later hlater fun name hname => .inl (by rwa [← hkept.contains])
  have hattends' := hattends.later hlater hkept.contains
  refine ⟨y, hy, hcovers'.congr hv hp, ?_, fun names hreturned => ?_⟩
  · unfold Walk.Attends at hattends' ⊢
    rwa [hphase, hp]
  · rw [hv, hp, hphase]
    exact hreturns names (hout ▸ hreturned)

/-- **Every action keeps track of what a walk has covered**, as long as nobody else adds files. -/
theorem tracks_apply (hw : w.Tidy)
    (hlawful : ∀ id l, w.lane? id = some l → l.Lawful env w.store.options id)
    (hreturned : w.Returned) (hadd : ∀ name text, a ≠ .add name text)
    (hothers : ∀ j x, j ≠ k → w.walks[j]? = some x → ¬x.IsFetching)
    (h : w.Tracks origin entries k) : (w.apply env a).Tracks origin entries k := by
  have hended : ∀ id r ending, w.store.record? id = some r → r.cell.stage = .ended ending →
      ∃ r', (w.apply env a).store.record? id = some r' ∧ r'.cell.stage = .ended ending :=
    fun id r ending hr hs => ended_apply_stage hw hlawful a hr hs
  have hkeeps : Alike k w (w.apply env a) → w.store.Kept (w.apply env a).store →
      (w.apply env a).Tracks origin entries k := fun halike hkept =>
    h.later halike hkept (Store.later_of_ended hkept hended)
  by_cases ha : a = .tick
  · subst ha
    cases hnext : w.loop.next? with
    | none =>
      have htick : w.apply env .tick = w := by simp [apply, tick, hnext]
      rwa [htick]
    | some p =>
      obtain ⟨job, loop⟩ := p
      cases job with
      | file id job =>
        have htick : w.apply env .tick = ({ w with loop } : World).performFile id job := by
          simp [apply, tick, hnext, perform]
        rw [htick] at hkeeps ⊢
        exact hkeeps (alike_of_walks (congrArg (·[k]?) (walks_performFile { w with loop } id job)))
          (store_performFile { w with loop } id job)
      | walk j job =>
        have htick : w.apply env .tick = ({ w with loop } : World).performWalk
            (env ((w.walks[j]?.map Walk.resolver).getD 0)) j job := by
          simp [apply, tick, hnext, perform]
        rw [htick] at hkeeps ⊢
        by_cases hjk : j = k
        · subst hjk
          have hpopped : Tracks origin entries j { w with loop } := h
          exact tracks_performWalk hpopped hreturned job
        · exact hkeeps (alike_of_walks (getElem?_performWalk hjk _ { w with loop } job))
            (kept_performWalk (w := { w with loop }) (fun x hx => hothers j x hjk hx) _ job)
  · exact hkeeps (alike_apply ha) (Moves.kept (apply_moves hw.walks ha) ha hadd)

end World

end DepGraph
