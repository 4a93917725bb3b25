import Mathlib.Data.List.Induction
import DepGraph.Proofs.Mappings
import DepGraph.Settings.Layers

/-!
# Layers, leaf by leaf

A path of keys leads through nested mappings. What merged layers hold at a path, if it is no
mapping, is what the most specific layer that has a say about the path holds there.

* `Value.at?`, `Entries.at?` — what stands at a path of keys;
* `Value.WellKeyed` — no mapping of a value has two entries of one key;
* `Entries.Settles` — a layer has a say about a path;
* `Settings.leaf_merge` — one merge; `Settings.leaf_layer` — any number of layers;
* `Settings.most_specific_leaf` — the three scopes.
-/

set_option autoImplicit false

namespace DepGraph

/-! ## Paths -/

/-- The value at a path of keys. -/
def Value.at? : List Scalar → Value → Option Value
  | [], v => some v
  | key :: path, .map es => (Entries.get? key es).bind (at? path)
  | _ :: _, _ => none

mutual

/-- No mapping, however deep in mappings, has two entries of one key. -/
def Value.WellKeyed : Value → Prop
  | .map es => Entries.Distinct es ∧ EachWellKeyed es
  | _ => True

/-- The values of all entries are well keyed. -/
def Value.EachWellKeyed : List (Scalar × Value) → Prop
  | [] => True
  | (_, v) :: rest => v.WellKeyed ∧ EachWellKeyed rest

end

namespace Entries

/-- The value at a path of keys. -/
def at? (es : Entries) (path : List Scalar) : Option Value := Value.at? path (.map es)

/-- A mapping settles what stands at a path: it has a value there, or one that is no mapping on the
way. -/
def Settles (es : Entries) (path : List Scalar) : Prop :=
  (∃ v, es.at? path = some v) ∨
    ∃ before after v, before ≠ [] ∧ after ≠ [] ∧ path = before ++ after ∧
      es.at? before = some v ∧ v.entries? = none

variable {es inner : Entries} {key : Scalar} {path : List Scalar} {v w : Value}

theorem at?_cons (es : Entries) (key : Scalar) (path : List Scalar) :
    es.at? (key :: path) = (es.get? key).bind (Value.at? path) := rfl

/-- Nothing stands below what is no mapping. -/
theorem at?_of_leaf (found : es.get? key = some w) (leaf : w.entries? = none)
    (below : path ≠ []) : es.at? (key :: path) = none := by
  obtain ⟨next, rest, rfl⟩ := List.exists_cons_of_ne_nil below
  rw [at?_cons, found, Option.bind_some]
  cases w with
  | map inner => cases leaf
  | scalar _ | list _ | set _ => rfl

theorem at?_of_map (found : es.get? key = some (.map inner)) (path : List Scalar) :
    es.at? (key :: path) = inner.at? path := by
  rw [at?_cons, found, Option.bind_some, at?]

theorem wellKeyed_of_get? (keyed : (Value.map es).WellKeyed) (found : es.get? key = some v) :
    v.WellKeyed := by
  rw [Value.WellKeyed] at keyed
  have each := keyed.2
  clear keyed
  induction es with
  | nil => cases found
  | cons e es ih =>
    obtain ⟨k, u⟩ := e
    rw [Value.EachWellKeyed] at each
    rw [get?_cons] at found
    split at found
    · obtain rfl := Option.some.inj found
      exact each.1
    · exact ih found each.2

/-! ## Who settles a path -/

theorem not_settles_of_none (absent : es.get? key = none) : ¬es.Settles (key :: path) := by
  rintro (⟨v, found⟩ | ⟨before, after, v, nonempty, -, split, found, -⟩)
  · rw [at?_cons, absent] at found
    cases found
  · obtain ⟨first, rest, rfl⟩ := List.exists_cons_of_ne_nil nonempty
    obtain rfl := (List.cons.inj split).1
    rw [at?_cons, absent] at found
    cases found

theorem settles_of_leaf (found : es.get? key = some w) (leaf : w.entries? = none)
    (path : List Scalar) : es.Settles (key :: path) := by
  have here : es.at? [key] = some w := by rw [at?_cons, found]; rfl
  cases path with
  | nil => exact .inl ⟨w, here⟩
  | cons next rest => exact .inr ⟨[key], next :: rest, w, by simp, by simp, rfl, here, leaf⟩

theorem settles_of_map (found : es.get? key = some (.map inner)) (below : path ≠ []) :
    es.Settles (key :: path) ↔ inner.Settles path := by
  refine or_congr ?_ ?_
  · rw [at?_of_map found]
  · constructor
    · rintro ⟨before, after, v, nonempty, proper, split, there, leaf⟩
      obtain ⟨first, rest, rfl⟩ := List.exists_cons_of_ne_nil nonempty
      obtain ⟨rfl, rfl⟩ := List.cons.inj split
      rw [at?_of_map found] at there
      refine ⟨rest, after, v, ?_, proper, rfl, there, leaf⟩
      -- the mapping itself is no leaf
      rintro rfl
      cases there
      cases leaf
    · rintro ⟨before, after, v, -, proper, rfl, there, leaf⟩
      exact ⟨key :: before, after, v, by simp, proper, rfl, (at?_of_map found before).trans there,
        leaf⟩

end Entries

/-! ## Merging -/

namespace Settings

variable {base overlay : Entries} {path : List Scalar} {v : Value}

/-- **A merge, leaf by leaf**: what the overlay holds, and besides what the base holds where the
overlay settles nothing. -/
theorem leaf_merge (keyed : (Value.map overlay).WellKeyed) (nonempty : path ≠ [])
    (leaf : v.entries? = none) :
    (merge base overlay).at? path = some v ↔
      overlay.at? path = some v ∨ base.at? path = some v ∧ ¬overlay.Settles path := by
  induction path generalizing base overlay with
  | nil => exact absurd rfl nonempty
  | cons key path ih =>
    have merged := get?_merge base overlay (by rw [Value.WellKeyed] at keyed; exact keyed.1) key
    cases found : overlay.get? key with
    | none =>
      -- the overlay has no say
      rw [found] at merged
      rw [Entries.at?_cons, merged, ← Entries.at?_cons, Entries.at?_cons overlay, found]
      simp [Entries.not_settles_of_none found]
    | some w =>
      rw [found] at merged
      simp only at merged
      cases shape : w.entries? with
      | none =>
        -- a leaf replaces whatever the base has under the key
        rw [mergeValue_of_leaf shape] at merged
        rw [Entries.at?_cons, merged, Entries.at?_cons overlay, found]
        simp [Entries.settles_of_leaf found shape]
      | some inner =>
        obtain rfl : w = .map inner := by
          cases w with
          | map es => exact congrArg _ (Option.some.inj shape)
          | scalar _ | list _ | set _ => cases shape
        rw [mergeValue_map] at merged
        by_cases below : path = []
        · -- a mapping stands at the path itself, whichever the base has there
          subst below
          have settled : overlay.Settles [key] :=
            .inl ⟨.map inner, by rw [Entries.at?_cons, found]; rfl⟩
          have apart : ∀ es : Entries, Value.map es ≠ v := by
            rintro es rfl
            cases leaf
          rw [Entries.at?_cons, merged, Entries.at?_cons overlay, found]
          split <;> simp [Value.at?, settled, apart]
        · rw [Entries.settles_of_map found below, Entries.at?_of_map found]
          split at merged
          · next old there =>
            rw [Entries.at?_of_map merged, Entries.at?_of_map there,
              ih (Entries.wellKeyed_of_get? keyed found) below]
          · next hidden =>
            -- the base has no mapping under the key, and so nothing at the path
            have nothing : base.at? (key :: path) = none := by
              cases there : base.get? key with
              | none => rw [Entries.at?_cons, there]; rfl
              | some old =>
                refine Entries.at?_of_leaf there ?_ below
                cases old with
                | map es => exact absurd there (hidden es)
                | scalar _ | list _ | set _ => rfl
            rw [Entries.at?_of_map merged, nothing]
            simp

/-- **Layers, leaf by leaf**: what is held at a path and is no mapping, one layer holds, and no
later one settles the path. -/
theorem leaf_layer {layers : List Entries} (keyed : ∀ es ∈ layers, (Value.map es).WellKeyed)
    (nonempty : path ≠ []) (leaf : v.entries? = none) :
    (layer layers).at? path = some v ↔
      ∃ before es after, layers = before ++ es :: after ∧ es.at? path = some v ∧
        ∀ above ∈ after, ¬above.Settles path := by
  induction layers using List.reverseRec with
  | nil =>
    obtain ⟨key, rest, rfl⟩ := List.exists_cons_of_ne_nil nonempty
    simp [layer, Entries.at?_cons]
  | append_singleton layers top ih =>
    have ih := ih fun es here => keyed es (List.mem_append_left _ here)
    rw [layer, List.foldl_append, List.foldl_cons, List.foldl_nil, ← layer,
      leaf_merge (keyed top (by simp)) nonempty leaf, ih]
    constructor
    · rintro (held | ⟨⟨before, es, after, rfl, held, unsettled⟩, passed⟩)
      · exact ⟨layers, top, [], rfl, held, by simp⟩
      · refine ⟨before, es, after ++ [top], by simp, held, fun above there => ?_⟩
        rcases List.mem_append.1 there with there | there
        · exact unsettled above there
        · rw [List.mem_singleton.1 there]
          exact passed
    · rintro ⟨before, es, after, split, held, unsettled⟩
      rcases List.eq_nil_or_concat after with rfl | ⟨after, last, rfl⟩
      · obtain ⟨-, rfl⟩ := List.append_singleton_inj.1 split
        exact .inl held
      · rw [List.concat_eq_append] at split unsettled
        rw [← List.cons_append, ← List.append_assoc] at split
        obtain ⟨rfl, rfl⟩ := List.append_singleton_inj.1 split
        exact .inr ⟨⟨before, es, after, rfl, held,
          fun above there => unsettled above (List.mem_append_left _ there)⟩,
          unsettled top (by simp)⟩

/-- **Each leaf of the settings is that of the most specific scope that has a say.** Let the mappings
of a user, a project and a machine be merged in this order. A value that is no mapping stands at a
path of keys if and only if one of the three has it there, and no more specific one has any value
there, nor a value that is no mapping on the way. -/
theorem most_specific_leaf {user project machine : Entries}
    (user_keyed : (Value.map user).WellKeyed) (project_keyed : (Value.map project).WellKeyed)
    (machine_keyed : (Value.map machine).WellKeyed) {path : List Scalar} (nonempty : path ≠ [])
    {v : Value} (leaf : v.entries? = none) :
    (layer [user, project, machine]).at? path = some v ↔
      machine.at? path = some v ∨
      project.at? path = some v ∧ ¬machine.Settles path ∨
      user.at? path = some v ∧ ¬project.Settles path ∧ ¬machine.Settles path := by
  have keyed : ∀ es ∈ [user, project, machine], (Value.map es).WellKeyed := by
    simp [user_keyed, project_keyed, machine_keyed]
  rw [leaf_layer keyed nonempty leaf]
  constructor
  · rintro ⟨before, es, after, split, held, unsettled⟩
    obtain _ | ⟨_, _ | ⟨_, _ | ⟨_, _⟩⟩⟩ := before
    · cases split
      exact .inr (.inr ⟨held, unsettled project (by simp), unsettled machine (by simp)⟩)
    · cases split
      exact .inr (.inl ⟨held, unsettled machine (by simp)⟩)
    · cases split
      exact .inl held
    · simp at split
  · rintro (held | ⟨held, passed⟩ | ⟨held, passed, passed'⟩)
    · exact ⟨[user, project], machine, [], rfl, held, nofun⟩
    · exact ⟨[user], project, [machine], rfl, held, by simp [passed]⟩
    · exact ⟨[], user, [project, machine], rfl, held, by simp [passed, passed']⟩

/-- The project has a number where the user and the machine have a mapping. -/
def interrupted : Scope → Entries
  | .user =>
    [(.text "typings", .map [(.text "a", .bool true), (.text "b", .text "./b.d.ts")]),
      (.text "types", .list [.text "node"])]
  | .project => [(.text "typings", .int 5)]
  | .machine => [(.text "typings", .map [(.text "b", .text "./c.d.ts")])]

theorem wellKeyed_interrupted (scope : Scope) : (Value.map (interrupted scope)).WellKeyed := by
  cases scope <;>
    simp [interrupted, Value.WellKeyed, Value.EachWellKeyed, Entries.Distinct]

/-- The number cuts off the mapping of the user, although the machine brings a mapping back. -/
theorem most_specific_leaf_interrupted :
    (interrupted .user).at? [.text "typings", .text "a"] = some (.bool true) ∧
    (layer (Scope.all.map interrupted)).at? [.text "typings", .text "a"] ≠ some (.bool true) ∧
    (layer (Scope.all.map interrupted)).at? [.text "typings", .text "b"] =
      some (.text "./c.d.ts") ∧
    (layer (Scope.all.map interrupted)).at? [.text "types"] = some (.list [.text "node"]) := by
  have leaves {path : List Scalar} (nonempty : path ≠ []) {v : Value} (leaf : v.entries? = none) :=
    most_specific_leaf (wellKeyed_interrupted .user) (wellKeyed_interrupted .project)
      (wellKeyed_interrupted .machine) nonempty leaf
  refine ⟨by decide, fun held => ?_, (leaves (by simp) rfl).2 (.inl (by decide)),
    (leaves (by simp) rfl).2 (.inr (.inr ⟨by decide, ?_, ?_⟩))⟩
  · rcases (leaves (by simp) rfl).1 held with none_here | ⟨none_here, -⟩ | ⟨-, unsettled, -⟩
    · exact absurd none_here (by decide)
    · exact absurd none_here (by decide)
    · exact unsettled (Entries.settles_of_leaf (w := .int 5) (by decide) rfl _)
  · exact Entries.not_settles_of_none (by decide)
  · exact Entries.not_settles_of_none (by decide)

end Settings

end DepGraph
