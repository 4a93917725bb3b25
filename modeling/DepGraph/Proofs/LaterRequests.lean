import DepGraph.Proofs.ErasedRuns

/-!
# Leaving out the later requests for a file

* `World.asksAgain` — an action asks for a file whose resolution was started before.
* `World.laterWaiters` — the waiters that such requests of a run bring.
* `World.withoutLater` — a run without these requests, and without what concerns their waiters
  alone.
* `World.run_without` — it comes to the same world, but for these waiters.
-/

set_option autoImplicit false

namespace DepGraph.World

/-- How many wait for a file, or have waited. -/
def waiting (w : World) (id : FileId) : Nat :=
  ((w.store.record? id).map fun r => r.cell.waiters.length).getD 0

/-- The resolution of a file was started. -/
def started (w : World) (id : FileId) : Bool :=
  ((w.store.record? id).map fun r => r.cell.state != .unstarted).getD false

/-- The action asks a resolver for a file whose resolution was started before. -/
def asksAgain (id : FileId) (w : World) : Action → Bool
  | .resolve _ name => w.store.current? name = some id && w.started id
  | _ => false

variable (env : Nat → Environment) (id : FileId)

/-- The numbers of the waiters that come with those requests of a run that ask again. -/
def laterWaiters : World → List Action → List Nat
  | _, [] => []
  | w, a :: rest =>
    (if w.asksAgain id a then [w.waiting id] else []) ++ laterWaiters (w.apply env a) rest

/-- A run without the requests that ask again; the waiters `gone` are those that they bring. The
jobs that tell them are not carried out either, and whoever stays is known by the new number. -/
def withoutLater (gone : List Nat) : World → List Action → List Action
  | _, [] => []
  | w, a :: rest =>
    if w.asksAgain id a then withoutLater gone (w.apply env a) rest
    else (a.without id gone w).toList ++ withoutLater gone (w.apply env a) rest

variable {env id} {w : World} {gone : List Nat} {a : Action}

theorem started_eq {r : Record} (hr : w.store.record? id = some r) :
    w.started id = true ↔ r.cell.stage ≠ .unstarted := by
  simp only [started, hr, Option.map_some, Option.getD_some, bne_iff_ne, ne_eq]
  exact not_congr Cell.state_eq_unstarted

theorem waiting_eq {r : Record} (hr : w.store.record? id = some r) :
    w.waiting id = r.cell.waiters.length := by
  simp [waiting, hr]

/-- There is no waiter beyond those that are counted. -/
theorem listens_lt {k : Nat} {listener : Option WalkRef} (h : w.store.Listens id k listener) :
    k < w.waiting id := by
  obtain ⟨r, x, hr, hx, -⟩ := h
  rw [waiting_eq hr]
  exact (List.getElem?_eq_some_iff.mp hx).1

theorem waiting_le {w' : World} (h : w.store.Grows w'.store) : w.waiting id ≤ w'.waiting id := by
  cases hr : w.store.record? id with
  | none => simp [waiting, hr]
  | some r =>
    obtain ⟨r', hr', hjoined⟩ := h id r hr
    rw [waiting_eq hr, waiting_eq hr']
    exact hjoined.length_le

/-- Those who come later have greater numbers than those who are there. -/
theorem waiting_le_of_mem (hw : w.Tidy) {actions : List Action} {k : Nat}
    (h : k ∈ laterWaiters env id w actions) : w.waiting id ≤ k := by
  induction actions generalizing w with
  | nil => simp [laterWaiters] at h
  | cons a rest ih =>
    rcases List.mem_append.mp h with h | h
    · split at h
      · exact Nat.le_of_eq (List.mem_singleton.mp h).symm
      · cases h
    · exact Nat.le_trans (waiting_le (grows_apply env hw a)) (ih (tidy_apply env hw a) h)

theorem resolve_waiter {resolver : Nat} {name : String} {listener : Option WalkRef}
    {p : FileId × Nat} (h : (w.resolve (env resolver) resolver name listener).2 = .ok p) :
    p.2 = w.waiting p.1 := by
  rcases resolve_spec (env resolver) w resolver name listener with
    ⟨_, h'⟩ | ⟨id', r, _, hr, ⟨_, _, _, h'⟩ | ⟨_, _, _, _, h'⟩ | ⟨_, h'⟩⟩ <;>
    rw [h'] at h <;> cases h
  · exact (waiting_eq hr).symm
  · exact (waiting_eq hr).symm

/-- A request that asks again brings one more waiter, whom nobody listens to. -/
theorem apply_asksAgain (h : w.asksAgain id a = true) :
    w.apply env a = w.join id none ∧ (w.apply env a).store.Listens id (w.waiting id) none ∧
      ∃ r, w.store.record? id = some r ∧ r.cell.waiters.length = w.waiting id := by
  cases a with
  | resolve resolver name =>
    simp only [asksAgain, Bool.and_eq_true, decide_eq_true_eq] at h
    obtain ⟨hid, hstarted⟩ := h
    cases hr : w.store.record? id with
    | none => simp [started, hr] at hstarted
    | some r =>
      have hlater : w.resolve (env resolver) resolver name none = _ :=
        resolve_later hid hr ((started_eq hr).mp hstarted)
      have happly : w.apply env (.resolve resolver name) = w.join id none :=
        congrArg Prod.fst hlater
      rw [happly, waiting_eq hr]
      exact ⟨rfl, listens_resolve hlater, r, rfl, rfl⟩
  | _ => cases h

theorem asksAgain_without {a' : Action} (ha : a.without id gone w = some a') :
    (w.without id gone).asksAgain id a' = w.asksAgain id a := by
  have hstarted : (w.without id gone).started id = w.started id := by
    unfold started
    rw [record?_without, Option.map_map]
    cases w.store.record? id with
    | none => rfl
    | some r => simp [Record.without, Cell.without, Cell.state]
  cases a with
  | tick =>
    obtain rfl : a' = .tick := by
      simp only [Action.without] at ha
      cases hnext : w.loop.next? with
      | none => simpa [hnext] using ha.symm
      | some p =>
        obtain ⟨_, -, rfl⟩ := by simpa [hnext] using ha
        rfl
    rfl
  | giveUp other k =>
    simp only [Action.without] at ha
    split at ha
    · cases ha
    · cases ha
      rfl
  | resolve resolver name =>
    cases ha
    simp only [asksAgain, current?_without, hstarted]
  | _ => cases ha; rfl

/-- **A run without the requests that ask again** comes to the same world, but for the waiters that
they bring; and nobody asks again in it. Those of them who are there already have nobody to listen
to them. -/
theorem run_without {old : List Nat} {actions : List Action} (hw : w.Tidy)
    (hloop : ∀ resolver name, .resolveWithoutLoop resolver name ∉ actions)
    (hold : ∀ k ∈ old, w.store.Listens id k none)
    (hgone : gone = old ++ laterWaiters env id w actions) :
    (w.without id gone).run env (withoutLater env id gone w actions) =
      (w.run env actions).without id gone ∧
    laterWaiters env id (w.without id gone) (withoutLater env id gone w actions) = [] := by
  induction actions generalizing w old with
  | nil => exact ⟨rfl, rfl⟩
  | cons a rest ih =>
    have hrest := @ih (w.apply env a)
    have htidy := tidy_apply env hw a
    have hgrows := grows_apply env hw a
    have hloop' : ∀ resolver name, .resolveWithoutLoop resolver name ∉ rest :=
      fun resolver name hmem => hloop resolver name (List.mem_cons_of_mem _ hmem)
    have hold' : ∀ k ∈ old, (w.apply env a).store.Listens id k none :=
      fun k hk => hgrows.listens (hold k hk)
    cases hagain : w.asksAgain id a with
    | true =>
      obtain ⟨happly, hlistens, r, hr, hlength⟩ := @apply_asksAgain env id w a hagain
      simp only [laterWaiters, hagain, if_true, ← List.append_assoc] at hgone
      simp only [withoutLater, hagain, if_true]
      have hsame : (w.apply env a).without id gone = w.without id gone := by
        rw [happly, without_join_of_mem hr]
        rw [hlength, hgone]
        simp
      rw [← hsame]
      refine hrest htidy hloop' (fun k hk => ?_) hgone
      rcases List.mem_append.mp hk with hk | hk
      · exact hold' k hk
      · exact List.mem_singleton.mp hk ▸ hlistens
    | false =>
      simp only [laterWaiters, hagain, Bool.false_eq_true, if_false, List.nil_append] at hgone
      simp only [withoutLater, hagain, Bool.false_eq_true, if_false]
      obtain ⟨hrun, hnone⟩ := hrest htidy hloop' hold' hgone
      have hheard : Unheard id gone (w.apply env a).store := by
        intro k hk listener hlistens
        rw [hgone] at hk
        rcases List.mem_append.mp hk with hk | hk
        · exact Store.listens_unique hlistens (hold' k hk)
        · exact absurd (waiting_le_of_mem htidy hk) (Nat.not_le.mpr (listens_lt hlistens))
      cases ha : a.without id gone w with
      | none =>
        rw [without_apply_none (hheard.of_grows hgrows) ha] at hrun hnone
        exact ⟨hrun, hnone⟩
      | some a' =>
        have hnew : ∀ resolver name, a = .resolve resolver name →
            ∀ p, (w.resolve (env resolver) resolver name none).2 = .ok p → p.1 = id →
              p.2 ∉ gone := by
          rintro resolver name rfl p hp hid hmem
          have hwaiting := resolve_waiter hp
          rw [hid] at hwaiting
          have hlistens : (w.apply env (.resolve resolver name)).store.Listens p.1 p.2 none :=
            listens_resolve (Prod.ext rfl hp)
          rw [hid] at hlistens
          rw [hgone] at hmem
          rcases List.mem_append.mp hmem with hmem | hmem
          · have hlt := listens_lt (hold _ hmem)
            omega
          · exact absurd (waiting_le_of_mem htidy hmem) (Nat.not_le.mpr (listens_lt hlistens))
        have hstep := without_apply hw hheard
          (fun resolver name e => absurd (e ▸ List.mem_cons_self) (hloop resolver name)) hnew ha
        refine ⟨?_, ?_⟩
        · rw [← hstep] at hrun
          exact hrun
        · simp only [Option.toList_some, List.singleton_append, laterWaiters, asksAgain_without ha,
            hagain, hstep, hnone]
          rfl

end DepGraph.World
