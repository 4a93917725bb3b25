import Mathlib.Data.List.Basic
import DepGraph.Resolution.Dependencies

/-!
# How the specifiers of a file are merged

* `Dependencies.distinct_eq` — each element stays at its first place.
* `Dependencies.keys_merge` — the merged texts are the distinct ones, in order of first occurrence.
* `Dependencies.lookup_merge` — each has the address of its last occurrence.
-/

set_option autoImplicit false

namespace DepGraph.Dependencies

theorem mem_distinct_foldl (xs acc : List String) (x : String) :
    x ∈ xs.foldl (fun acc x => if acc.contains x then acc else acc ++ [x]) acc ↔
      x ∈ acc ∨ x ∈ xs := by
  induction xs generalizing acc with
  | nil => simp
  | cons y rest ih =>
    rw [List.foldl_cons, ih]
    by_cases hy : y ∈ acc
    · have hyes : acc.contains y = true := by simpa using hy
      rw [if_pos hyes, List.mem_cons]
      refine ⟨fun h => h.imp_right .inr, ?_⟩
      rintro (h | rfl | h)
      · exact .inl h
      · exact .inl hy
      · exact .inr h
    · have hno : ¬acc.contains y = true := by simpa using hy
      rw [if_neg hno]
      simp [or_assoc]

theorem mem_distinct {xs : List String} {x : String} : x ∈ distinct xs ↔ x ∈ xs := by
  rw [distinct, mem_distinct_foldl]
  simp

theorem nodup_distinct_foldl {acc : List String} (h : acc.Nodup) (xs : List String) :
    (xs.foldl (fun acc x => if acc.contains x then acc else acc ++ [x]) acc).Nodup := by
  induction xs generalizing acc with
  | nil => exact h
  | cons y rest ih =>
    rw [List.foldl_cons]
    by_cases hy : y ∈ acc
    · rw [if_pos (by simpa using hy)]
      exact ih h
    · rw [if_neg (by simpa using hy)]
      refine ih (List.nodup_append.mpr ⟨h, by simp, ?_⟩)
      rintro a ha b hb rfl
      exact hy (List.mem_singleton.mp hb ▸ ha)

theorem nodup_distinct (xs : List String) : (distinct xs).Nodup :=
  nodup_distinct_foldl List.nodup_nil xs

theorem distinct_foldl (xs acc : List String) :
    xs.foldl (fun acc x => if acc.contains x then acc else acc ++ [x]) acc =
      acc ++ (xs.filter fun x => !acc.contains x).eraseDups := by
  induction xs generalizing acc with
  | nil => simp
  | cons y rest ih =>
    rw [List.foldl_cons, ih]
    by_cases hy : acc.contains y = true
    · rw [if_pos hy, List.filter_cons_of_neg (by simpa using hy)]
    · rw [if_neg hy, List.filter_cons_of_pos (by simpa using hy), List.eraseDups_cons,
        List.append_assoc, List.filter_filter]
      have hfilter : (rest.filter fun x => !(acc ++ [y]).contains x) =
          rest.filter fun x => (!x == y) && !acc.contains x := by
        refine List.filter_congr fun x _ => ?_
        by_cases hx : x = y <;> simp [hx]
      rw [hfilter]
      rfl

/-- Each element stays at its first place. -/
theorem distinct_eq (xs : List String) : distinct xs = xs.eraseDups := by
  rw [distinct, distinct_foldl, List.nil_append]
  simp

theorem nodup_eraseDups (xs : List String) : xs.eraseDups.Nodup :=
  distinct_eq xs ▸ nodup_distinct xs

/-- Where no element comes twice, each is at its first place. -/
theorem eraseDups_of_nodup {xs : List String} (h : xs.Nodup) : xs.eraseDups = xs := by
  induction xs with
  | nil => rfl
  | cons x rest ih =>
    obtain ⟨hx, hrest⟩ := List.nodup_cons.mp h
    have hall : rest.filter (fun y => !y == x) = rest := List.filter_eq_self.mpr fun y hy => by
      have hne : y ≠ x := fun e => hx (e ▸ hy)
      simpa using hne
    rw [List.eraseDups_cons, hall, ih hrest]

theorem keys_put (text : String) (address : Option String) (acc : List (String × Option String)) :
    (Keyed.put text address acc).map (·.1) =
      if text ∈ acc.map (·.1) then acc.map (·.1) else acc.map (·.1) ++ [text] :=
  Keyed.keys_update text (fun _ => address) acc

theorem lookup_put (text other : String) (address : Option String)
    (acc : List (String × Option String)) :
    (Keyed.put text address acc).lookup other =
      if other = text then some address else acc.lookup other :=
  Keyed.lookup_update text other (fun _ => address) acc

theorem keys_merge_foldl (found acc : List (String × Option String)) :
    (found.foldl (fun acc (text, address) => Keyed.put text address acc) acc).map (·.1) =
      (found.map (·.1)).foldl (fun acc x => if acc.contains x then acc else acc ++ [x])
        (acc.map (·.1)) := by
  induction found generalizing acc with
  | nil => rfl
  | cons p rest ih =>
    rw [List.foldl_cons, ih, List.map_cons, List.foldl_cons, keys_put]
    by_cases hp : p.1 ∈ acc.map (·.1)
    · rw [if_pos hp, if_pos (by simpa using hp)]
    · rw [if_neg hp, if_neg (by simpa using hp)]

/-- **The merged texts** are the distinct ones, in order of first occurrence. -/
theorem keys_merge (found : List (String × Option String)) :
    (merge found).map (·.1) = (found.map (·.1)).eraseDups := by
  rw [← distinct_eq, merge, keys_merge_foldl]
  rfl

theorem lookup_merge_foldl {found acc : List (String × Option String)} {text : String}
    (h : text ∉ found.map (·.1)) :
    (found.foldl (fun acc (text, address) => Keyed.put text address acc) acc).lookup text =
      acc.lookup text := by
  induction found generalizing acc with
  | nil => rfl
  | cons p rest ih =>
    simp only [List.map_cons, List.mem_cons, not_or] at h
    rw [List.foldl_cons, ih h.2, lookup_put, if_neg h.1]

/-- **The last occurrence of a text counts.** -/
theorem lookup_merge {before after : List (String × Option String)} {text : String}
    {address : Option String} (h : text ∉ after.map (·.1)) :
    (merge (before ++ (text, address) :: after)).lookup text = some address := by
  rw [merge, List.foldl_append, List.foldl_cons, lookup_merge_foldl h, lookup_put, if_pos rfl]

/-- The last of two lists of equal length counts likewise. -/
theorem lookup_merge_zip {texts : List String} {addresses : List (Option String)}
    (hlen : addresses.length = texts.length) {i : Nat} {text : String} {address : Option String}
    (ht : texts[i]? = some text) (ha : addresses[i]? = some address)
    (hlast : ∀ j other, i < j → texts[j]? = some other → other ≠ text) :
    (merge (texts.zip addresses)).lookup text = some address := by
  obtain ⟨hi, hti⟩ := List.getElem?_eq_some_iff.mp ht
  obtain ⟨hi', hai⟩ := List.getElem?_eq_some_iff.mp ha
  have hsplit : texts.zip addresses = (texts.zip addresses).take i ++
      (text, address) :: (texts.zip addresses).drop (i + 1) := by
    have hlt : i < (texts.zip addresses).length := by
      rw [List.length_zip]
      omega
    have hget : (texts.zip addresses)[i] = (text, address) := by
      rw [List.getElem_zip, hti, hai]
    rw [← hget, ← List.drop_eq_getElem_cons hlt, List.take_append_drop]
  rw [hsplit]
  refine lookup_merge fun hmem => ?_
  obtain ⟨p, hp, hpt⟩ := List.mem_map.mp hmem
  obtain ⟨k, hk⟩ := List.mem_iff_getElem?.mp hp
  rw [List.getElem?_drop] at hk
  have hzip := (List.getElem?_zip_eq_some.mp hk).1
  exact hlast (i + 1 + k) p.1 (by omega) hzip hpt

end DepGraph.Dependencies
