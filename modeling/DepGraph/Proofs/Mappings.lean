import Mathlib.Data.List.Induction
import DepGraph.Settings.Merge

/-!
# Looking up what was written

What a mapping holds under a key, after an entry is written and after two mappings are merged.
Keys go by `Scalar.sameKey`, which is an equivalence, so a lookup does not depend on which of
several equivalent keys is asked for.

* `Value.nested_induction` — induction over nested values;
* `Scalar.sameKey_iff`, `Scalar.sameKey_congr` — keys that name one entry;
* `Entries.get?_put` — writing an entry changes what stands under one key only;
* `Entries.Distinct`, `Entries.distinct_ofList` — no entry is hidden behind an earlier one;
* `Entries.ext_get?` — the keys in order and what stands under them make a mapping;
* `Settings.get?_merge` — a merge, key by key.
-/

set_option autoImplicit false

namespace DepGraph

/-! ## Nested values -/

/-- What holds of scalars and sets, and of a list or a mapping when it holds of its items or of the
values of its entries, holds of every value. -/
@[elab_as_elim]
theorem Value.nested_induction {motive : Value → Prop} (scalar : ∀ s, motive (.scalar s))
    (set : ∀ members, motive (.set members))
    (list : ∀ items, (∀ v ∈ items, motive v) → motive (.list items))
    (map : ∀ es : Entries, (∀ e ∈ es, motive e.2) → motive (.map es)) : ∀ v, motive v
  | .scalar s => scalar s
  | .set members => set members
  | .list items => list items fun v _ => nested_induction scalar set list map v
  | .map es => map es fun e _ => nested_induction scalar set list map e.2
termination_by v => sizeOf v
decreasing_by
  · rename_i item
    have smaller : sizeOf v < sizeOf items := List.sizeOf_lt_of_mem item
    simp only [Value.list.sizeOf_spec]
    omega
  · rename_i entry
    have smaller : sizeOf e < sizeOf es := List.sizeOf_lt_of_mem entry
    have within : sizeOf e.2 < sizeOf e := by
      cases e
      simp only [Prod.mk.sizeOf_spec]
      omega
    simp only [Value.map.sizeOf_spec]
    omega

/-! ## Keys -/

namespace Scalar

theorem sameKey_iff {a b : Scalar} :
    a.sameKey b = true ↔ a.amount? = b.amount? ∧ (a.amount? = none → a = b) := by
  unfold sameKey
  cases ha : a.amount? <;> cases hb : b.amount? <;> simp

@[simp] theorem sameKey_refl (a : Scalar) : a.sameKey a = true := by
  simp [sameKey_iff]

theorem sameKey_symm {a b : Scalar} (h : a.sameKey b = true) : b.sameKey a = true := by
  obtain ⟨amounts, equal⟩ := sameKey_iff.1 h
  exact sameKey_iff.2 ⟨amounts.symm, fun none_b => (equal (amounts.trans none_b)).symm⟩

theorem sameKey_trans {a b c : Scalar} (hab : a.sameKey b = true) (hbc : b.sameKey c = true) :
    a.sameKey c = true := by
  obtain ⟨amounts, equal⟩ := sameKey_iff.1 hab
  obtain ⟨amounts', equal'⟩ := sameKey_iff.1 hbc
  exact sameKey_iff.2 ⟨amounts.trans amounts',
    fun none_a => (equal none_a).trans (equal' (amounts ▸ none_a))⟩

/-- Two keys that name one entry name the same entries. -/
theorem sameKey_congr {a b : Scalar} (h : a.sameKey b = true) (c : Scalar) :
    c.sameKey a = c.sameKey b :=
  Bool.eq_iff_iff.2 ⟨fun hca => sameKey_trans hca h, fun hcb => sameKey_trans hcb (sameKey_symm h)⟩

end Scalar

/-! ## One mapping -/

namespace Entries

@[simp] theorem get?_nil (key : Scalar) : get? key [] = none := rfl

@[simp] theorem keys_nil : keys [] = [] := rfl

@[simp] theorem keys_cons (k : Scalar) (v : Value) (es : Entries) :
    keys ((k, v) :: es) = k :: es.keys := rfl

theorem get?_cons (key k : Scalar) (v : Value) (es : Entries) :
    get? key ((k, v) :: es) = if k.sameKey key then some v else es.get? key := rfl

/-- A lookup goes by the entry that a key names. -/
theorem get?_congr {a b : Scalar} (h : a.sameKey b = true) (es : Entries) :
    es.get? a = es.get? b := by
  induction es with
  | nil => rfl
  | cons e es ih => rw [get?_cons, get?_cons, Scalar.sameKey_congr h, ih]

/-- Of two mappings one after the other, the first is asked first. -/
theorem get?_append (key : Scalar) (es fs : Entries) :
    get? key (es ++ fs) = (es.get? key).or (fs.get? key) := by
  induction es with
  | nil => rfl
  | cons e es ih =>
    obtain ⟨k, v⟩ := e
    rw [List.cons_append, get?_cons, get?_cons, ih]
    split <;> rfl

/-- To leave out entries that go by other keys changes nothing. -/
theorem get?_filter {key : Scalar} {keep : Scalar × Value → Bool} {es : Entries}
    (kept : ∀ e ∈ es, e.1.sameKey key = true → keep e = true) :
    get? key (es.filter keep) = es.get? key := by
  induction es with
  | nil => rfl
  | cons e es ih =>
    obtain ⟨k, v⟩ := e
    have others := ih fun f hf => kept f (List.mem_cons_of_mem _ hf)
    rw [get?_cons, List.filter_cons]
    split
    · rw [get?_cons, others]
    · next left_out =>
      have apart : ¬k.sameKey key = true := fun same => left_out (kept _ List.mem_cons_self same)
      rw [if_neg apart, others]

theorem get?_eq_none {key : Scalar} {es : Entries} :
    es.get? key = none ↔ ∀ e ∈ es, e.1.sameKey key = false := by
  induction es with
  | nil => simp
  | cons e es ih =>
    obtain ⟨k, v⟩ := e
    rw [get?_cons, List.forall_mem_cons, ← ih]
    cases k.sameKey key <;> simp

/-- Writing an entry changes what stands under its own key and nothing else. -/
theorem get?_put (key other : Scalar) (value : Value) (es : Entries) :
    (es.put key value).get? other = if key.sameKey other then some value else es.get? other := by
  induction es with
  | nil => rfl
  | cons e es ih =>
    obtain ⟨k, v⟩ := e
    rw [put]
    split
    · -- the key is there: its entry stands for exactly the keys that the written one stands for
      next same =>
        rw [get?_cons, get?_cons]
        have agree : k.sameKey other = key.sameKey other := by
          rw [Bool.eq_iff_iff]
          exact ⟨Scalar.sameKey_trans (Scalar.sameKey_symm same), Scalar.sameKey_trans same⟩
        rw [agree]
        split <;> rfl
    · next differ =>
        rw [get?_cons, get?_cons, ih]
        split
        · next here =>
            have apart : key.sameKey other = false := by
              rw [Bool.eq_false_iff]
              exact fun there => differ (Scalar.sameKey_trans here (Scalar.sameKey_symm there))
            simp [apart]
        · rfl

/-- A key that is not there comes last. -/
theorem put_of_get?_eq_none {key : Scalar} {es : Entries} (absent : es.get? key = none)
    (value : Value) : es.put key value = es ++ [(key, value)] := by
  induction es with
  | nil => rfl
  | cons e es ih =>
    obtain ⟨k, v⟩ := e
    rw [get?_cons] at absent
    split at absent
    · cases absent
    · next apart => rw [put, if_neg apart, ih absent, List.cons_append]

/-- To write what is there anyway changes nothing. -/
theorem put_of_get?_eq_some {key : Scalar} {value : Value} {es : Entries}
    (there : es.get? key = some value) : es.put key value = es := by
  induction es with
  | nil => cases there
  | cons e es ih =>
    obtain ⟨k, v⟩ := e
    rw [get?_cons] at there
    split at there
    · next same =>
        cases there
        rw [put, if_pos same]
    · next apart => rw [put, if_neg apart, ih there]

/-- A key that is there keeps its place, any other one comes last. -/
theorem keys_put (key : Scalar) (value : Value) (es : Entries) :
    (es.put key value).keys = if (es.get? key).isNone then es.keys ++ [key] else es.keys := by
  induction es with
  | nil => rfl
  | cons e es ih =>
    obtain ⟨k, v⟩ := e
    rw [get?_cons, put]
    by_cases same : k.sameKey key = true
    · simp [same]
    · rw [if_neg same, if_neg same, keys_cons, keys_cons, ih]
      split <;> rfl

/-- No two entries go by one key. -/
def Distinct (es : Entries) : Prop := es.Pairwise fun p q => p.1.sameKey q.1 = false

instance (es : Entries) : Decidable es.Distinct := by
  unfold Distinct
  infer_instance

/-- What the first entry stands for, no later one does. -/
theorem Distinct.get?_tail {e : Scalar × Value} {es : Entries}
    (distinct : Distinct (e :: es)) {key : Scalar} (same : e.1.sameKey key = true) :
    es.get? key = none := by
  rw [← get?_congr same]
  refine get?_eq_none.2 fun f hf => ?_
  have apart := (List.pairwise_cons.1 distinct).1 f hf
  rw [Bool.eq_false_iff] at apart ⊢
  exact fun back => apart (Scalar.sameKey_symm back)

/-- Every entry stands under its own key. -/
theorem Distinct.get?_of_mem {es : Entries} (distinct : es.Distinct) {e : Scalar × Value}
    (entry : e ∈ es) : es.get? e.1 = some e.2 := by
  induction es with
  | nil => cases entry
  | cons f es ih =>
    obtain ⟨k, v⟩ := f
    rw [get?_cons]
    obtain rfl | later := List.mem_cons.1 entry
    · exact if_pos (Scalar.sameKey_refl _)
    · have apart : k.sameKey e.1 = false := (List.pairwise_cons.1 distinct).1 e later
      rw [apart]
      exact ih (List.pairwise_cons.1 distinct).2 later

/-- What stands under a key is the value of an entry that goes by it. -/
theorem exists_of_get?_eq_some {key : Scalar} {value : Value} {es : Entries}
    (there : es.get? key = some value) : ∃ e ∈ es, e.1.sameKey key = true ∧ e.2 = value := by
  induction es with
  | nil => cases there
  | cons f es ih =>
    obtain ⟨k, v⟩ := f
    rw [get?_cons] at there
    split at there
    · next same => exact ⟨(k, v), List.mem_cons_self, same, Option.some.inj there⟩
    · obtain ⟨e, entry, found⟩ := ih there
      exact ⟨e, List.mem_cons_of_mem _ entry, found⟩

/-- **The keys in order, and what stands under them, make a mapping.** -/
theorem ext_get? {es es' : Entries} (distinct : es.Distinct) (distinct' : es'.Distinct)
    (same_keys : es.keys = es'.keys) (same_values : ∀ key, es.get? key = es'.get? key) :
    es = es' := by
  induction es generalizing es' with
  | nil => exact (List.map_eq_nil_iff.1 same_keys.symm).symm
  | cons e es ih =>
    obtain ⟨k, v⟩ := e
    cases es' with
    | nil => cases same_keys
    | cons e' es' =>
      obtain ⟨k', v'⟩ := e'
      obtain ⟨first, rest_keys⟩ : k = k' ∧ keys es = keys es' := List.cons.inj same_keys
      subst first
      have same_value := same_values k
      rw [get?_cons, get?_cons, Scalar.sameKey_refl, if_pos rfl, if_pos rfl] at same_value
      cases same_value
      refine congrArg (_ :: ·) (ih (List.pairwise_cons.1 distinct).2
        (List.pairwise_cons.1 distinct').2 rest_keys fun key => ?_)
      by_cases same : k.sameKey key = true
      · rw [distinct.get?_tail same, distinct'.get?_tail same]
      · have rest := same_values key
        rwa [get?_cons, get?_cons, if_neg same, if_neg same] at rest

/-- After a write an entry is one of before, or it has the value written, and its key is the key
written or that of an entry of before. -/
theorem mem_put {key : Scalar} {value : Value} {es : Entries} {e : Scalar × Value}
    (h : e ∈ es.put key value) :
    e ∈ es ∨ e.2 = value ∧ (e.1 = key ∨ ∃ f ∈ es, f.1 = e.1) := by
  induction es with
  | nil =>
    obtain rfl := List.mem_singleton.1 h
    exact .inr ⟨rfl, .inl rfl⟩
  | cons f es ih =>
    obtain ⟨k, v⟩ := f
    rw [put] at h
    split at h <;> obtain rfl | h := List.mem_cons.1 h
    · exact .inr ⟨rfl, .inr ⟨(k, v), List.mem_cons_self, rfl⟩⟩
    · exact .inl (List.mem_cons_of_mem _ h)
    · exact .inl List.mem_cons_self
    · refine (ih h).imp (List.mem_cons_of_mem _) (And.imp_right (Or.imp_right ?_))
      rintro ⟨f, hf, same⟩
      exact ⟨f, List.mem_cons_of_mem _ hf, same⟩

theorem Distinct.put {es : Entries} (distinct : es.Distinct) (key : Scalar) (value : Value) :
    (es.put key value).Distinct := by
  induction es with
  | nil => exact List.pairwise_singleton _ _
  | cons e es ih =>
    obtain ⟨k, v⟩ := e
    obtain ⟨apart, rest⟩ := List.pairwise_cons.1 distinct
    rw [Entries.put]
    split
    · exact List.pairwise_cons.2 ⟨apart, rest⟩
    · next differ =>
        refine List.pairwise_cons.2 ⟨fun f hf => ?_, ih rest⟩
        obtain there | ⟨-, written | ⟨g, hg, same⟩⟩ := mem_put hf
        · exact apart f there
        · rw [written]
          exact Bool.eq_false_iff.2 differ
        · rw [← same]
          exact apart g hg

theorem ofList_concat (pairs : List (Scalar × Value)) (p : Scalar × Value) :
    ofList (pairs ++ [p]) = put p.1 p.2 (ofList pairs) := by
  rw [ofList, List.foldl_append, ← ofList]
  rfl

/-- Every key and every value that was written comes from one of the pairs. -/
theorem of_mem_ofList {pairs : List (Scalar × Value)} {e : Scalar × Value}
    (entry : e ∈ ofList pairs) : (∃ p ∈ pairs, p.1 = e.1) ∧ ∃ p ∈ pairs, p.2 = e.2 := by
  induction pairs using List.reverseRec generalizing e with
  | nil => cases entry
  | append_singleton pairs p ih =>
    rw [ofList_concat] at entry
    have hearlier : ∀ q ∈ pairs, q ∈ pairs ++ [p] := fun q => List.mem_append_left _
    obtain there | ⟨written, key⟩ := mem_put entry
    · obtain ⟨⟨q, hq, same⟩, q', hq', same'⟩ := ih there
      exact ⟨⟨q, hearlier q hq, same⟩, q', hearlier q' hq', same'⟩
    · refine ⟨?_, p, by simp, written.symm⟩
      obtain written | ⟨f, there, same⟩ := key
      · exact ⟨p, by simp, written.symm⟩
      · obtain ⟨q, hq, same'⟩ := (ih there).1
        exact ⟨q, hearlier q hq, same'.trans same⟩

/-- Distinct entries are what results from writing them one after the other. -/
theorem ofList_of_distinct {es : Entries} (distinct : es.Distinct) : ofList es = es := by
  induction es using List.reverseRec with
  | nil => rfl
  | append_singleton es e ih =>
    obtain ⟨before, -, apart⟩ := List.pairwise_append.1 distinct
    have absent : get? e.1 es = none :=
      get?_eq_none.2 fun f hf => apart f hf e (List.mem_singleton.2 rfl)
    rw [ofList_concat, ih before]
    exact put_of_get?_eq_none absent e.2

/-- Entries that were written one after the other are distinct. -/
theorem distinct_ofList (pairs : List (Scalar × Value)) : (ofList pairs).Distinct := by
  suffices kept : ∀ acc : Entries, acc.Distinct →
      Distinct (pairs.foldl (fun acc e => put e.1 e.2 acc) acc) from
    kept [] List.Pairwise.nil
  induction pairs with
  | nil => exact fun _ distinct => distinct
  | cons e pairs ih => exact fun acc distinct => ih _ (distinct.put e.1 e.2)

end Entries

/-! ## Two mappings -/

namespace Settings

/-- Any value but a mapping replaces what stood in its place. -/
theorem mergeValue_of_leaf {v : Value} (leaf : v.entries? = none) (old : Option Value) :
    mergeValue old v = v := by
  cases v with
  | map es => cases leaf
  | scalar _ | list _ | set _ => rw [mergeValue]; exact fun _ h => Value.noConfusion h

theorem mergeValue_map (old : Option Value) (overlay : Entries) :
    mergeValue old (.map overlay) =
      match old with
      | some (.map base) => .map (merge base overlay)
      | _ => .map overlay := by
  unfold mergeValue
  rfl

/-- Where nothing stood, a value stands as it is. -/
theorem mergeValue_none (v : Value) : mergeValue none v = v := by
  cases v with
  | map es => rw [mergeValue_map]
  | scalar _ | list _ | set _ => exact mergeValue_of_leaf rfl none

@[simp] theorem merge_nil (base : Entries) : merge base [] = base := by
  rw [merge, mergeEntries]

theorem merge_cons (base : Entries) (k : Scalar) (v : Value) (overlay : Entries) :
    merge base ((k, v) :: overlay) = merge (base.put k (mergeValue (base.get? k) v)) overlay := by
  rw [merge, mergeEntries, merge]

/-- A merge, key by key: what the overlay has under a key is written over what the base has. -/
theorem get?_merge (base overlay : Entries) (distinct : overlay.Distinct) (key : Scalar) :
    (merge base overlay).get? key =
      match overlay.get? key with
      | none => base.get? key
      | some v => some (mergeValue (base.get? key) v) := by
  induction overlay generalizing base with
  | nil => rw [merge_nil, Entries.get?_nil]
  | cons e overlay ih =>
    obtain ⟨k, v⟩ := e
    rw [merge_cons, ih _ (List.pairwise_cons.1 distinct).2, Entries.get?_cons, Entries.get?_put]
    by_cases same : k.sameKey key = true
    · -- the entry just written is the last word: nothing after it goes by this key
      rw [distinct.get?_tail same, if_pos same, if_pos same, Entries.get?_congr same]
    · rw [if_neg same, if_neg same]

end Settings
end DepGraph
