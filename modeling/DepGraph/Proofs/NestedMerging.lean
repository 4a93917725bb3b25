import DepGraph.Proofs.Mappings
import DepGraph.Settings.Layers

/-!
# Merging with so many calls

A merge of two mappings takes a call for each mapping that both hold under one key. It comes to its
end unless the overlay is nested deeper than there are calls, and then there is one failure only. A
mapping that holds itself is nested without end. Values of the format in use are not, and for them
the merge with enough calls is the one that counts no calls.

* `Format.Within` — values nested at most so deep;
* `Format.mergeWithin_eq_error` — how a merge fails;
* `Format.mergeValue_endless` — a mapping that holds itself is not merged with itself;
* `mergeWithin_yaml`, `exists_within` — merging with enough calls, and that there are enough.
-/

set_option autoImplicit false

namespace DepGraph.Settings

namespace Format

variable {K V X : Type} (f : Format K V X)

/-! ## Failing -/

/-- The mappings of a value are nested at most so deep. -/
def Within : Nat → V → Prop
  | 0, v => f.entries? v = none
  | depth + 1, v => ∀ es, f.entries? v = some es → ∀ e ∈ es, Within depth e.2

variable {f}

@[simp] theorem within_zero {v : V} : f.Within 0 v ↔ f.entries? v = none := Iff.rfl

@[simp] theorem within_succ {depth : Nat} {v : V} :
    f.Within (depth + 1) v ↔ ∀ es, f.entries? v = some es → ∀ e ∈ es, f.Within depth e.2 := Iff.rfl

theorem Within.mono {depth depth' : Nat} {v : V} (within : f.Within depth v)
    (le : depth ≤ depth') : f.Within depth' v := by
  induction depth generalizing depth' v with
  | zero =>
    cases depth' with
    | zero => exact within
    | succ depth' => simp [within_zero.1 within]
  | succ depth ih =>
    cases depth' with
    | zero => cases le
    | succ depth' =>
      exact fun es holds e entry => ih (within es holds e entry) (Nat.le_of_succ_le_succ le)

/-- Values that are each nested only so deep have a depth in common. -/
theorem exists_within_all {es : List (K × V)} (each : ∀ e ∈ es, ∃ depth, f.Within depth e.2) :
    ∃ depth, ∀ e ∈ es, f.Within depth e.2 := by
  induction es with
  | nil => exact ⟨0, nofun⟩
  | cons e es ih =>
    obtain ⟨first, within⟩ := each e List.mem_cons_self
    obtain ⟨others, all⟩ := ih fun e entry => each e (List.mem_cons_of_mem _ entry)
    refine ⟨max first others, List.forall_mem_cons.2 ⟨within.mono (Nat.le_max_left _ _), ?_⟩⟩
    exact fun e entry => (all e entry).mono (Nat.le_max_right _ _)

/-- A merge fails where the values under one key do not come together. -/
theorem exists_of_mergeBy_eq_error {combine : Option V → V → Except X V}
    {base overlay : List (K × V)} {failure : X}
    (fails : f.mergeBy combine base overlay = .error failure) :
    ∃ e ∈ overlay, ∃ old, combine old e.2 = .error failure := by
  induction overlay generalizing base with
  | nil => cases fails
  | cons e rest ih =>
    obtain ⟨k, v⟩ := e
    rw [mergeBy] at fails
    split at fails
    · obtain ⟨e, entry, found⟩ := ih fails
      exact ⟨e, List.mem_cons_of_mem _ entry, found⟩
    · next combined =>
        cases fails
        exact ⟨(k, v), List.mem_cons_self, _, combined⟩

variable {exhausted failure : X} {calls : Nat}

theorem mergeValue_eq_error {old : Option V} {v : V}
    (fails : f.mergeValue exhausted calls old v = .error failure) :
    failure = exhausted ∧ ¬ f.Within calls v := by
  induction calls generalizing old v with
  | zero =>
    obtain stands | ⟨base, overlay, below, above⟩ := f.mergeValue_cases old v
    · rw [stands] at fails
      cases fails
    · rw [mergeValue_zero _ _ below above] at fails
      cases fails
      exact ⟨rfl, by simp [above]⟩
  | succ calls ih =>
    obtain stands | ⟨base, overlay, below, above⟩ := f.mergeValue_cases old v
    · rw [stands] at fails
      cases fails
    · rw [mergeValue_succ _ _ _ below above] at fails
      cases merged : f.mergeWithin exhausted calls base overlay with
      | ok es =>
        rw [merged] at fails
        cases fails
      | error other =>
        rw [merged] at fails
        cases fails
        obtain ⟨e, entry, old, found⟩ := exists_of_mergeBy_eq_error merged
        obtain ⟨same, deep⟩ := ih found
        exact ⟨same, fun within => deep (within overlay above e entry)⟩

/-- **A merge fails only when its calls are exhausted**, and only if the overlay is nested deeper
than there are calls. -/
theorem mergeWithin_eq_error {base overlay : List (K × V)}
    (fails : f.mergeWithin exhausted calls base overlay = .error failure) :
    failure = exhausted ∧ ∃ e ∈ overlay, ¬ f.Within calls e.2 := by
  obtain ⟨e, entry, old, found⟩ := exists_of_mergeBy_eq_error fails
  obtain ⟨rfl, deep⟩ := mergeValue_eq_error found
  exact ⟨rfl, e, entry, deep⟩

/-- A mapping that holds itself is not merged with itself, however many calls there are. -/
theorem mergeValue_endless {k : K} {v : V} (endless : f.entries? v = some [(k, v)])
    (own : f.sameKey k k = true) (exhausted : X) (calls : Nat) :
    f.mergeValue exhausted calls (some v) v = .error exhausted := by
  induction calls with
  | zero => exact mergeValue_zero _ _ endless endless
  | succ calls ih =>
    have found : f.get? k [(k, v)] = some v := if_pos own
    have below : (some v).bind f.entries? = some [(k, v)] := endless
    rw [mergeValue_succ _ _ _ below endless, mergeWithin, mergeBy, found, ih]
    rfl

end Format

/-! ## Merging in the format in use -/

theorem get?_yaml (key : Scalar) (es : Entries) : yaml.get? key es = es.get? key := by
  induction es with
  | nil => rfl
  | cons e es ih =>
    obtain ⟨k, v⟩ := e
    rw [Format.get?, Entries.get?_cons, ih]
    rfl

theorem put_yaml (key : Scalar) (v : Value) (es : Entries) :
    yaml.put key v es = es.put key v := by
  induction es with
  | nil => rfl
  | cons e es ih =>
    obtain ⟨k, w⟩ := e
    rw [Format.put, Entries.put, ih]
    rfl

/-- Values that come together as they do without counting make mappings that do. -/
theorem mergeBy_yaml {combine : Option Value → Value → Except LoadFailure Value}
    {base overlay : Entries}
    (each : ∀ e ∈ overlay, ∀ old, combine old e.2 = .ok (mergeValue old e.2)) :
    yaml.mergeBy combine base overlay = .ok (merge base overlay) := by
  induction overlay generalizing base with
  | nil => rw [Format.mergeBy_nil, merge_nil]
  | cons e rest ih =>
    obtain ⟨k, v⟩ := e
    rw [Format.mergeBy, each _ List.mem_cons_self, merge_cons, ← get?_yaml, ← put_yaml]
    exact ih fun e entry => each e (List.mem_cons_of_mem _ entry)

theorem mergeValue_yaml (exhausted : LoadFailure) {calls : Nat} {v : Value}
    (within : yaml.Within calls v) (old : Option Value) :
    yaml.mergeValue exhausted calls old v = .ok (mergeValue old v) := by
  induction calls generalizing old v with
  | zero =>
    have leaf : v.entries? = none := within
    rw [mergeValue_of_leaf leaf, yaml.mergeValue_of_leaf leaf]
  | succ calls ih =>
    cases v with
    | scalar _ | list _ | set _ => rw [mergeValue_of_leaf rfl, yaml.mergeValue_of_leaf rfl]
    | map overlay =>
      rw [mergeValue_map]
      obtain _ | (_ | _ | base | _) := old
      case some.map =>
        have each : ∀ e ∈ overlay, ∀ old, yaml.mergeValue exhausted calls old e.2 =
            .ok (mergeValue old e.2) := fun e entry old => ih (within overlay rfl e entry) old
        have below : (some (Value.map base)).bind yaml.entries? = some base := rfl
        rw [yaml.mergeValue_succ _ _ below rfl, Format.mergeWithin, mergeBy_yaml each]
        rfl
      all_goals rw [Format.mergeValue]; rfl

/-- **Where the overlay is not nested deeper than there are calls, the calls do not count.** -/
theorem mergeWithin_yaml (exhausted : LoadFailure) {calls : Nat} {overlay : Entries}
    (within : ∀ e ∈ overlay, yaml.Within calls e.2) (base : Entries) :
    yaml.mergeWithin exhausted calls base overlay = .ok (merge base overlay) :=
  mergeBy_yaml fun e entry old => mergeValue_yaml exhausted (within e entry) old

/-- Every value has an end. -/
theorem exists_within (v : Value) : ∃ depth, yaml.Within depth v := by
  induction v using Value.nested_induction with
  | scalar _ | set _ | list _ => exact ⟨0, rfl⟩
  | map es ih =>
    obtain ⟨depth, all⟩ := Format.exists_within_all ih
    refine ⟨depth + 1, fun held same => ?_⟩
    obtain rfl : es = held := Option.some.inj same
    exact all

end DepGraph.Settings
