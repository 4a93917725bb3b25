/-!
# Entries under keys

A list of pairs holds one value under each of its keys, in the order in which the keys were first
written. Writing a key again keeps its place.

* `Keyed.update` — changes the value under a key, which comes to be at the end if it is not there.
* `Keyed.put` — writes a value under a key.
* `Keyed.modify` — changes the value under a key that is there, and nothing otherwise.
* `Keyed.keys_update`, `Keyed.lookup_update`, `Keyed.lookup_modify` — the keys and the values after
  a change.
* `Keyed.modify_modify`, `Keyed.modify_comm`, `Keyed.update_modify` — two changes, one after the
  other.
-/

set_option autoImplicit false

namespace DepGraph.Keyed

variable {κ ν : Type} [DecidableEq κ]

/-- Changes the value under a key; `change` is told the old value, if there is one. -/
def update (key : κ) (change : Option ν → ν) : List (κ × ν) → List (κ × ν)
  | [] => [(key, change none)]
  | (k, v) :: rest =>
    if k = key then (k, change (some v)) :: rest else (k, v) :: update key change rest

/-- Writes a value under a key. -/
def put (key : κ) (value : ν) : List (κ × ν) → List (κ × ν) := update key fun _ => value

/-- Changes the value under a key that is there. -/
def modify (key : κ) (change : ν → ν) : List (κ × ν) → List (κ × ν)
  | [] => []
  | (k, v) :: rest => if k = key then (k, change v) :: rest else (k, v) :: modify key change rest

/-- A key that is there keeps its place, any other one comes last. -/
theorem keys_update (key : κ) (change : Option ν → ν) (xs : List (κ × ν)) :
    (update key change xs).map (·.1) =
      if key ∈ xs.map (·.1) then xs.map (·.1) else xs.map (·.1) ++ [key] := by
  induction xs with
  | nil => rfl
  | cons x rest ih =>
    obtain ⟨k, v⟩ := x
    by_cases h : k = key
    · simp [update, h]
    · have h' : ¬key = k := fun e => h e.symm
      by_cases hm : key ∈ rest.map (·.1) <;> simp_all [update]

/-- The keys do not change with the values. -/
theorem keys_modify (key : κ) (change : ν → ν) (xs : List (κ × ν)) :
    (modify key change xs).map (·.1) = xs.map (·.1) := by
  induction xs with
  | nil => rfl
  | cons x rest ih =>
    obtain ⟨k, v⟩ := x
    by_cases h : k = key <;> simp [modify, h, ih]

/-- The value under the key is the changed one, and under any other key it is the old one. -/
theorem lookup_update (key other : κ) (change : Option ν → ν) (xs : List (κ × ν)) :
    (update key change xs).lookup other =
      if other = key then some (change (xs.lookup key)) else xs.lookup other := by
  induction xs with
  | nil =>
    by_cases h : other = key
    · simp [update, h]
    · simp [update, List.lookup_cons, h, beq_false_of_ne h]
  | cons x rest ih =>
    obtain ⟨k, v⟩ := x
    by_cases hk : k = key
    · subst hk
      by_cases h : other = k <;> simp [update, List.lookup_cons, h, beq_false_of_ne]
    · have hk' : ¬key = k := fun e => hk e.symm
      by_cases h : other = k
      · subst h
        simp [update, hk]
      · have ho : (other == k) = false := beq_false_of_ne h
        have hkb : (key == k) = false := beq_false_of_ne hk'
        simp [update, hk, List.lookup_cons, ho, hkb, ih]

/-- The value under the key is the changed one, if there is one. -/
theorem lookup_modify (key other : κ) (change : ν → ν) (xs : List (κ × ν)) :
    (modify key change xs).lookup other =
      if other = key then (xs.lookup key).map change else xs.lookup other := by
  induction xs with
  | nil => by_cases h : other = key <;> simp [modify, h]
  | cons x rest ih =>
    obtain ⟨k, v⟩ := x
    by_cases hk : k = key
    · subst hk
      by_cases h : other = k <;> simp [modify, List.lookup_cons, h, beq_false_of_ne]
    · have hkb : (key == k) = false := beq_false_of_ne fun e => hk e.symm
      by_cases h : other = k
      · subst h
        simp [modify, hk]
      · have ho : (other == k) = false := beq_false_of_ne h
        simp [modify, hk, List.lookup_cons, ho, hkb, ih]

theorem modify_id (key : κ) (xs : List (κ × ν)) : modify key (fun v => v) xs = xs := by
  induction xs with
  | nil => rfl
  | cons p rest ih => simp [modify, ih]

/-- Only the value under the key matters to a change of it. -/
theorem modify_congr {key : κ} {change change' : ν → ν} {xs : List (κ × ν)}
    (h : ∀ v, xs.lookup key = some v → change v = change' v) :
    modify key change xs = modify key change' xs := by
  induction xs with
  | nil => rfl
  | cons x rest ih =>
    obtain ⟨k, v⟩ := x
    by_cases hk : k = key
    · subst hk
      simp [modify, h v (by simp)]
    · have hkb : (key == k) = false := beq_false_of_ne fun e => hk e.symm
      have hrest : modify key change rest = modify key change' rest :=
        ih fun v' hv' => h v' (by rw [List.lookup_cons, hkb]; exact hv')
      simp [modify, hk, hrest]

/-! ## Two changes -/

theorem modify_modify (key : κ) (change change' : ν → ν) (xs : List (κ × ν)) :
    modify key change' (modify key change xs) = modify key (fun v => change' (change v)) xs := by
  induction xs with
  | nil => rfl
  | cons x rest ih =>
    obtain ⟨k, v⟩ := x
    by_cases hk : k = key <;> simp [modify, hk, ih]

theorem modify_comm {key key' : κ} (h : key ≠ key') (change change' : ν → ν) (xs : List (κ × ν)) :
    modify key' change' (modify key change xs) = modify key change (modify key' change' xs) := by
  induction xs with
  | nil => rfl
  | cons x rest ih =>
    obtain ⟨k, v⟩ := x
    by_cases hk : k = key
    · subst hk
      simp [modify, h]
    · by_cases hk' : k = key'
      · subst hk'
        simp [modify, Ne.symm h]
      · simp [modify, hk, hk', ih]

theorem update_modify (key : κ) (change : ν → ν) (change' : Option ν → ν) (xs : List (κ × ν)) :
    update key change' (modify key change xs) =
      update key (fun v => change' (v.map change)) xs := by
  induction xs with
  | nil => rfl
  | cons x rest ih =>
    obtain ⟨k, v⟩ := x
    by_cases hk : k = key <;> simp [modify, update, hk, ih]

theorem modify_update (key : κ) (change : ν → ν) (change' : Option ν → ν) (xs : List (κ × ν)) :
    modify key change (update key change' xs) = update key (fun v => change (change' v)) xs := by
  induction xs with
  | nil => simp [modify, update]
  | cons x rest ih =>
    obtain ⟨k, v⟩ := x
    by_cases hk : k = key <;> simp [modify, update, hk, ih]

theorem update_modify_comm {key key' : κ} (h : key ≠ key') (change : ν → ν)
    (change' : Option ν → ν) (xs : List (κ × ν)) :
    update key' change' (modify key change xs) = modify key change (update key' change' xs) := by
  induction xs with
  | nil => simp [modify, update, Ne.symm h]
  | cons x rest ih =>
    obtain ⟨k, v⟩ := x
    by_cases hk : k = key
    · subst hk
      simp [modify, update, h]
    · by_cases hk' : k = key'
      · subst hk'
        simp [modify, update, Ne.symm h]
      · simp [modify, update, hk, hk', ih]

end DepGraph.Keyed
