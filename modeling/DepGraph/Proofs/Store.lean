import DepGraph.Resolution.Store
import DepGraph.Proofs.Cells

/-!
# Files of a store after a change

* `Store.record?_modify`, `Store.record?_add` — the records after a change.
* `Store.current?_modify`, `Store.current?_add` — which record is found under a name.
* `Store.modify_comm`, `Store.add_modify` — changes of which it does not matter which comes first.
* `Store.Kept` — the same files, with records changed in place.
* `Store.Grows` — whoever waits for a file goes on to wait for it.
* `Store.Inhabited` — every name of the store has a record, which is so of every store that was
  filled by adding files.
-/

set_option autoImplicit false

namespace DepGraph.Store

/-! ## Changing a record -/

@[simp] theorem options_modify (s : Store) (id : FileId) (change : Record → Record) :
    (s.modify id change).options = s.options := rfl

theorem generations_modify (s : Store) (id : FileId) (change : Record → Record) (name : String) :
    (s.modify id change).generations name =
      if name = id.name then (s.generations name).modify id.generation change
      else s.generations name := by
  simp only [generations, modify, Keyed.lookup_modify]
  by_cases h : name = id.name
  · subst h
    cases s.files.lookup id.name <;> simp
  · simp [h]

@[simp] theorem record?_modify (s : Store) (id other : FileId) (change : Record → Record) :
    (s.modify id change).record? other =
      if other = id then (s.record? id).map change else s.record? other := by
  simp only [record?, generations_modify]
  obtain ⟨name, generation⟩ := id
  obtain ⟨name', generation'⟩ := other
  by_cases hn : name' = name
  · subst hn
    by_cases hg : generation' = generation
    · subst hg
      simp
    · have hg' : ¬generation = generation' := fun e => hg e.symm
      simp [hg, hg']
  · simp [hn]

/-- Only the record itself matters to a change of it. -/
theorem modify_congr {s : Store} {id : FileId} {change change' : Record → Record} {r : Record}
    (hr : s.record? id = some r) (h : change r = change' r) :
    s.modify id change = s.modify id change' := by
  have hfiles : Keyed.modify id.name (fun rs => rs.modify id.generation change) s.files =
      Keyed.modify id.name (fun rs => rs.modify id.generation change') s.files := by
    apply Keyed.modify_congr
    intro rs hrs
    have hrec : rs[id.generation]? = some r := by simpa [record?, generations, hrs] using hr
    apply List.ext_getElem?
    intro i
    by_cases hi : id.generation = i
    · subst hi
      simp [hrec, h]
    · simp [hi]
  simp only [modify, hfiles]

/-- What is not there is not changed. -/
theorem modify_of_none {s : Store} {id : FileId} {change change' : Record → Record}
    (h : s.record? id = none) : s.modify id change = s.modify id change' := by
  have hfiles : Keyed.modify id.name (fun rs => rs.modify id.generation change) s.files =
      Keyed.modify id.name (fun rs => rs.modify id.generation change') s.files := by
    apply Keyed.modify_congr
    intro rs hrs
    have hlen : rs.length ≤ id.generation := by simpa [record?, generations, hrs] using h
    rw [List.modify_eq_self hlen, List.modify_eq_self hlen]
  simp only [modify, hfiles]

theorem modify_id (s : Store) (id : FileId) : s.modify id (fun r => r) = s := by
  have hrecords : (fun rs : List Record => rs.modify id.generation fun r => r) = fun rs => rs :=
    funext fun rs => List.modify_id id.generation rs
  simp only [modify, hrecords, Keyed.modify_id]

@[simp] theorem contains_modify (s : Store) (id : FileId) (change : Record → Record)
    (name : String) : (s.modify id change).contains name = s.contains name := by
  have h := Keyed.keys_modify id.name (fun rs : List Record => rs.modify id.generation change)
    s.files
  have hany : ∀ xs : List (String × List Record),
      xs.any (·.1 = name) = (xs.map (·.1)).any (· = name) := fun xs => by
    rw [List.any_map]; rfl
  simp only [contains, modify, hany, h]

@[simp] theorem current?_modify (s : Store) (id : FileId) (change : Record → Record)
    (name : String) : (s.modify id change).current? name = s.current? name := by
  simp only [current?, contains_modify, generations_modify]
  by_cases h : name = id.name <;> simp [h]

/-! ## Adding a file -/

@[simp] theorem options_add (s : Store) (name text : String) :
    (s.add name text).options = s.options := rfl

theorem generations_add (s : Store) (name text other : String) :
    (s.add name text).generations other =
      if other = name then s.generations name ++ [({ text } : Record)]
      else s.generations other := by
  simp only [generations, add, Keyed.lookup_update]
  by_cases h : other = name <;> simp [h]

/-- The file that adding a name brings. -/
def next (s : Store) (name : String) : FileId := ⟨name, (s.generations name).length⟩

@[simp] theorem record?_next (s : Store) (name : String) : s.record? (s.next name) = none := by
  simp [record?, next]

theorem record?_add (s : Store) (name text : String) (id : FileId) :
    (s.add name text).record? id =
      if id = s.next name then some ({ text } : Record) else s.record? id := by
  obtain ⟨name', generation⟩ := id
  simp only [record?, generations_add, next]
  by_cases hn : name' = name
  · subst hn
    by_cases hg : generation = (s.generations name').length
    · simp [hg]
    · rcases Nat.lt_or_gt_of_ne hg with hlt | hgt
      · simp [hg, List.getElem?_append_left hlt]
      · have hnone : (s.generations name')[generation]? = none := by
          simp [Nat.le_of_lt hgt]
        have hlast : ¬generation - (s.generations name').length = 0 := by omega
        simp [hg, hnone, List.getElem?_append_right (Nat.le_of_lt hgt), hlast]
  · simp [hn]

theorem contains_iff (s : Store) (name : String) : s.contains name = true ↔ name ∈ s.names := by
  simp [contains, names]

theorem names_add (s : Store) (name text : String) :
    (s.add name text).names = if name ∈ s.names then s.names else s.names ++ [name] :=
  Keyed.keys_update name _ s.files

theorem contains_add (s : Store) (name text other : String) :
    (s.add name text).contains other = (decide (other = name) || s.contains other) := by
  rw [Bool.eq_iff_iff]
  simp only [contains_iff, names_add, Bool.or_eq_true, decide_eq_true_eq]
  by_cases h : name ∈ s.names
  · rw [if_pos h]
    exact ⟨Or.inr, fun h' => h'.elim (fun e => e ▸ h) id⟩
  · simp [h, or_comm]

theorem current?_add (s : Store) (name text other : String) :
    (s.add name text).current? other =
      if other = name then some (s.next name) else s.current? other := by
  simp only [current?, contains_add, generations_add, next]
  by_cases h : other = name <;> simp [h]

/-! ## Two changes -/

theorem modify_modify (s : Store) (id : FileId) (change change' : Record → Record) :
    (s.modify id change).modify id change' = s.modify id fun r => change' (change r) := by
  simp only [modify, Keyed.modify_modify, List.modify_modify_eq, Function.comp_def]

theorem modify_comm (s : Store) {id other : FileId} (h : id ≠ other)
    (change change' : Record → Record) :
    (s.modify id change).modify other change' = (s.modify other change').modify id change := by
  obtain ⟨name, generation⟩ := id
  obtain ⟨name', generation'⟩ := other
  simp only [modify]
  by_cases hn : name = name'
  · subst hn
    have hg : generation ≠ generation' := fun e => h (by rw [e])
    simp only [Keyed.modify_modify, List.modify_modify_ne _ _ _ hg]
  · rw [Keyed.modify_comm hn]

theorem modify_concat {change : Record → Record} {r : Record} (h : change r = r) (rs : List Record)
    (i : Nat) : (rs ++ [r]).modify i change = rs.modify i change ++ [r] := by
  induction rs generalizing i with
  | nil => cases i <;> simp [List.modify_cons, h]
  | cons first rest ih =>
    cases i with
    | zero => simp
    | succ i => simp [ih]

/-- A change that leaves new records as they are may come before or after a file is added. -/
theorem add_modify (s : Store) (id : FileId) {change : Record → Record} (name text : String)
    (h : change ({ text } : Record) = { text }) :
    (s.modify id change).add name text = (s.add name text).modify id change := by
  simp only [modify, add]
  by_cases hn : id.name = name
  · subst hn
    rw [Keyed.update_modify, Keyed.modify_update]
    congr 2
    funext rs
    cases rs with
    | none => simpa using (modify_concat h [] id.generation).symm
    | some rs => exact (modify_concat h rs _).symm
  · rw [Keyed.update_modify_comm hn]

/-! ## Names and records -/

theorem generations_of_not_contains {s : Store} {name : String} (h : s.contains name = false) :
    s.generations name = [] := by
  have hnone : s.files.lookup name = none := by
    rw [List.lookup_eq_none_iff]
    intro p hp
    simp only [contains, List.any_eq_false, decide_eq_true_eq] at h
    exact bne_iff_ne.mpr fun e => h p hp e.symm
  simp [generations, hnone]

theorem contains_of_record? {s : Store} {id : FileId} {r : Record} (h : s.record? id = some r) :
    s.contains id.name = true := by
  cases hc : s.contains id.name with
  | true => rfl
  | false => simp [record?, generations_of_not_contains hc] at h

/-- Every name of the store has a record. -/
def Inhabited (s : Store) : Prop := ∀ name, s.contains name = true → s.generations name ≠ []

theorem Inhabited.add {s : Store} (h : s.Inhabited) (name text : String) :
    (s.add name text).Inhabited := by
  intro other hother
  rw [generations_add]
  split
  · simp
  · rename_i hne
    rw [contains_add] at hother
    exact h other (by simpa [hne] using hother)

theorem current?_name {s : Store} {name : String} {id : FileId} (h : s.current? name = some id) :
    id.name = name := by
  unfold current? at h
  split at h
  · cases h; rfl
  · cases h

/-- What is found under a name is the record of its current file. -/
theorem Inhabited.record? {s : Store} (h : s.Inhabited) {name : String} {id : FileId}
    (hid : s.current? name = some id) : ∃ r, s.record? id = some r := by
  unfold current? at hid
  split at hid
  · rename_i hname
    cases hid
    have hlen : 0 < (s.generations name).length := List.length_pos_iff.mpr (h name hname)
    have hlt : (s.generations name).length - 1 < (s.generations name).length := by omega
    exact ⟨_, List.getElem?_eq_getElem hlt⟩
  · cases hid

theorem find?_eq {s : Store} {name : String} {id : FileId} (h : s.current? name = some id) :
    s.find? name = s.record? id := by
  simp [find?, h]

/-! ## Changes in place -/

/-- The same files, with the same numbers of generations, under the same options. -/
structure Kept (s s' : Store) : Prop where
  options : s'.options = s.options
  names : s'.names = s.names
  generations : ∀ name, (s'.generations name).length = (s.generations name).length

theorem Kept.refl (s : Store) : Kept s s := ⟨rfl, rfl, fun _ => rfl⟩

theorem Kept.trans {s₁ s₂ s₃ : Store} (h₁ : Kept s₁ s₂) (h₂ : Kept s₂ s₃) : Kept s₁ s₃ :=
  ⟨h₂.options.trans h₁.options, h₂.names.trans h₁.names,
    fun name => (h₂.generations name).trans (h₁.generations name)⟩

theorem kept_modify (s : Store) (id : FileId) (change : Record → Record) :
    Kept s (s.modify id change) := by
  refine ⟨rfl, Keyed.keys_modify _ _ _, fun name => ?_⟩
  rw [generations_modify]
  split <;> simp

theorem Kept.contains {s s' : Store} (h : Kept s s') (name : String) :
    s'.contains name = s.contains name := by
  rw [Bool.eq_iff_iff, contains_iff, contains_iff, h.names]

theorem Kept.current? {s s' : Store} (h : Kept s s') (name : String) :
    s'.current? name = s.current? name := by
  simp [Store.current?, h.contains, h.generations]

theorem Kept.record?_none {s s' : Store} (h : Kept s s') (id : FileId) :
    s'.record? id = none ↔ s.record? id = none := by
  simp [Store.record?, h.generations]

theorem Kept.inhabited {s s' : Store} (h : Kept s s') (hs : s.Inhabited) : s'.Inhabited := by
  intro name hname e
  rw [h.contains] at hname
  have hlen := h.generations name
  rw [e] at hlen
  exact hs name hname (List.length_eq_zero_iff.mp hlen.symm)

/-! ## Waiters -/

/-- A waiter of a file, with who listens to it. -/
def Listens (s : Store) (id : FileId) (waiter : Nat) (listener : Option WalkRef) : Prop :=
  ∃ r x, s.record? id = some r ∧ r.cell.waiters[waiter]? = some x ∧ x.listener = listener

theorem listens_unique {s : Store} {id : FileId} {k : Nat} {listener listener' : Option WalkRef}
    (h : s.Listens id k listener) (h' : s.Listens id k listener') : listener = listener' := by
  obtain ⟨r, x, hr, hx, rfl⟩ := h
  obtain ⟨r', x', hr', hx', rfl⟩ := h'
  obtain rfl := Option.some.inj (hr.symm.trans hr')
  obtain rfl := Option.some.inj (hx.symm.trans hx')
  rfl

/-- Every record is still there, and so is everyone who waits for it. -/
def Grows (s s' : Store) : Prop :=
  ∀ id r, s.record? id = some r → ∃ r', s'.record? id = some r' ∧ r.cell.Joined r'.cell

theorem Grows.refl (s : Store) : Grows s s := fun _ r hr => ⟨r, hr, .refl _⟩

theorem Grows.trans {s₁ s₂ s₃ : Store} (h₁ : Grows s₁ s₂) (h₂ : Grows s₂ s₃) : Grows s₁ s₃ := by
  intro id r hr
  obtain ⟨r', hr', hj'⟩ := h₁ id r hr
  obtain ⟨r'', hr'', hj''⟩ := h₂ id r' hr'
  exact ⟨r'', hr'', hj'.trans hj''⟩

theorem Grows.listens {s s' : Store} (h : Grows s s') {id : FileId} {waiter : Nat}
    {listener : Option WalkRef} (hl : s.Listens id waiter listener) :
    s'.Listens id waiter listener := by
  obtain ⟨r, x, hr, hx, hlistener⟩ := hl
  obtain ⟨r', hr', hj⟩ := h id r hr
  obtain ⟨x', hx', hsame⟩ := hj waiter x hx
  exact ⟨r', x', hr', hx', hsame.trans hlistener⟩

theorem grows_modify {s : Store} {id : FileId} {change : Record → Record}
    (h : ∀ r, s.record? id = some r → r.cell.Joined (change r).cell) :
    Grows s (s.modify id change) := by
  intro other r hr
  rw [record?_modify]
  by_cases hid : other = id
  · subst hid
    exact ⟨change r, by simp [hr], h r hr⟩
  · exact ⟨r, by simp [hid, hr], .refl _⟩

theorem grows_add (s : Store) (name text : String) : Grows s (s.add name text) := by
  intro id r hr
  refine ⟨r, ?_, .refl _⟩
  have hne : id ≠ s.next name := by
    rintro rfl
    rw [record?_next] at hr
    cases hr
  rw [record?_add, if_neg hne, hr]

end DepGraph.Store
