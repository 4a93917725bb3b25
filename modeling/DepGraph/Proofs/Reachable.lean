import Mathlib.Logic.Relation
import DepGraph.Proofs.Runs
import DepGraph.Proofs.Outcome

/-!
# What can be reached in a store

* `Store.Resolved` — the file found under a name is resolved.
* `Store.Follows`, `Store.Reaches` — one file depends on another, directly and in steps.
* `Store.Later` — what was found under a name still is, and what has ended stays so: what could be
  reached still can.
* `World.ended_apply_stage` — no action changes how a resolution has ended.
-/

set_option autoImplicit false

namespace DepGraph

namespace Store

variable {s s' : Store} {name : String} {entries : List String}

/-- The file found under a name is resolved, with the given dependencies. -/
def Resolved (s : Store) (name : String) (info : Dependencies) : Prop :=
  ∃ id r, s.current? name = some id ∧ s.record? id = some r ∧
    r.cell.stage = .ended (.returned info)

/-- The dependencies of a resolved file are those that its record holds. -/
def Follows (s : Store) (name dependency : String) : Prop :=
  ∃ info, s.Resolved name info ∧ dependency ∈ info.list

/-- A file can be reached from one of the entries. -/
def Reaches (s : Store) (entries : List String) (name : String) : Prop :=
  ∃ entry ∈ entries, Relation.ReflTransGen s.Follows entry name

/-- What was found under a name still is, and what has ended stays as it is. -/
structure Later (s s' : Store) : Prop where
  current : ∀ name id, s.current? name = some id → s'.current? name = some id
  ended : ∀ id r ending, s.record? id = some r → r.cell.stage = .ended ending →
    ∃ r', s'.record? id = some r' ∧ r'.cell.stage = .ended ending

theorem Later.refl (s : Store) : Later s s := ⟨fun _ _ h => h, fun _ r _ hr hs => ⟨r, hr, hs⟩⟩

theorem Later.trans {s₁ s₂ s₃ : Store} (h₁ : Later s₁ s₂) (h₂ : Later s₂ s₃) : Later s₁ s₃ := by
  refine ⟨fun name id h => h₂.current name id (h₁.current name id h), fun id r ending hr hs => ?_⟩
  obtain ⟨r', hr', hs'⟩ := h₁.ended id r ending hr hs
  exact h₂.ended id r' ending hr' hs'

theorem contains_of_current? {id : FileId} (h : s.current? name = some id) :
    s.contains name = true := by
  unfold current? at h
  split at h
  · assumption
  · cases h

theorem current?_of_contains (h : s.contains name = true) : ∃ id, s.current? name = some id := by
  simp [current?, h]

theorem Later.contains (h : Later s s') (hname : s.contains name = true) :
    s'.contains name = true := by
  obtain ⟨id, hid⟩ := current?_of_contains hname
  exact contains_of_current? (h.current name id hid)

theorem Resolved.later {info : Dependencies} (h : s.Resolved name info) (hs : Later s s') :
    s'.Resolved name info := by
  obtain ⟨id, r, hid, hr, hstage⟩ := h
  obtain ⟨r', hr', hstage'⟩ := hs.ended id r _ hr hstage
  exact ⟨id, r', hs.current name id hid, hr', hstage'⟩

theorem Resolved.unique {info info' : Dependencies} (h : s.Resolved name info)
    (h' : s.Resolved name info') : info = info' := by
  obtain ⟨id, r, hid, hr, hs⟩ := h
  obtain ⟨id', r', hid', hr', hs'⟩ := h'
  obtain rfl := Option.some.inj (hid.symm.trans hid')
  obtain rfl := Option.some.inj (hr.symm.trans hr')
  rw [hs] at hs'
  cases hs'
  rfl

theorem Reaches.later (h : s.Reaches entries name) (hs : Later s s') : s'.Reaches entries name := by
  obtain ⟨entry, hentry, hsteps⟩ := h
  refine ⟨entry, hentry, Relation.ReflTransGen.mono (fun a b hab => ?_) _ _ hsteps⟩
  obtain ⟨info, hinfo, hmem⟩ := hab
  exact ⟨info, hinfo.later hs, hmem⟩

theorem Reaches.step (h : s.Reaches entries name) {dependency : String}
    (hd : s.Follows name dependency) : s.Reaches entries dependency := by
  obtain ⟨entry, hentry, hsteps⟩ := h
  exact ⟨entry, hentry, hsteps.tail hd⟩

theorem Reaches.entry (h : name ∈ entries) : s.Reaches entries name := ⟨name, h, .refl⟩

/-- A file under a new name leads to a later store. -/
theorem later_add {text : String} (h : s.contains name = false) : Later s (s.add name text) := by
  refine ⟨fun other id hid => ?_, fun id r ending hr hs => ⟨r, ?_, hs⟩⟩
  · rw [current?_add, if_neg]
    · exact hid
    · rintro rfl
      rw [contains_of_current? hid] at h
      cases h
  · rw [record?_add, if_neg]
    · exact hr
    · rintro rfl
      rw [record?_next] at hr
      cases hr

theorem later_of_ended (hk : Kept s s') (h : ∀ id r ending, s.record? id = some r →
    r.cell.stage = .ended ending → ∃ r', s'.record? id = some r' ∧ r'.cell.stage = .ended ending) :
    Later s s' :=
  ⟨fun name _ hid => (hk.current? name).trans hid, h⟩

end Store

namespace World

variable {env : Nat → Environment} {a : Action} {w w' : World} {id : FileId}

/-- What has ended stays as it is, whatever an action is made of. -/
theorem Moves.ended (h : Moves env a w w') {r : Record} {ending : Ending Fault Dependencies}
    (hr : w.store.record? id = some r) (hs : r.cell.stage = .ended ending) :
    ∃ r', w'.store.record? id = some r' ∧ r'.cell.stage = .ended ending := by
  obtain ⟨l', hl', htouches⟩ := Moves.touches h (lane?_of_record? hr)
  exact ⟨l'.record, (lane?_eq_some.mp hl').1, htouches.ended_iff.mpr hs⟩

/-- What has ended stays as it is. -/
theorem ended_apply_stage (hw : w.Tidy)
    (hlawful : ∀ id l, w.lane? id = some l → l.Lawful env w.store.options id) (a : Action)
    {r : Record} {ending : Ending Fault Dependencies} (hr : w.store.record? id = some r)
    (hs : r.cell.stage = .ended ending) :
    ∃ r', (w.apply env a).store.record? id = some r' ∧ r'.cell.stage = .ended ending := by
  have hl := lane?_of_record? hr
  obtain ⟨l', hl', ⟨-, -, rfl⟩ | htouches⟩ := lane_apply env hw hl a
  · obtain ⟨resolver, occurrences, hclosed⟩ := (hlawful id _ hl).closed_of_ended hs
    exact ⟨_, (lane?_eq_some.mp hl').1, (hclosed.turn w.registries).stage⟩
  · exact ⟨_, (lane?_eq_some.mp hl').1, htouches.ended_iff.mpr hs⟩

end World

end DepGraph
