import DepGraph.Proofs.KeyPaths
import DepGraph.Proofs.Loading

/-!
# Merging a mapping again

What is merged a second time changes nothing: neither a mapping that is merged onto itself, nor an
overlay that is merged again, nor what was merged onto a base and is merged onto it once more. This
is equality of the mappings as they are written, the order of their keys included.

* `Settings.keys_merge`, `Settings.keys_at_merge` — the keys of a merge, on every level;
* `Settings.merge_self`, `Settings.merge_again`, `Settings.merge_under` — the three laws;
* `Yaml.wellKeyed_read` — the mappings of documents are well keyed;
* `Settings.merge_absorbs` — the laws together, and what they mean for a settings file that is found
  in two neighbouring scopes.
-/

set_option autoImplicit false

namespace DepGraph

/-! ## Well-keyed mappings -/

theorem Value.eachWellKeyed_iff {es : Entries} :
    EachWellKeyed es ↔ ∀ e ∈ es, e.2.WellKeyed := by
  induction es with
  | nil => simp [EachWellKeyed]
  | cons e es ih =>
    obtain ⟨k, v⟩ := e
    rw [EachWellKeyed, ih, List.forall_mem_cons]

theorem Value.wellKeyed_map {es : Entries} :
    (Value.map es).WellKeyed ↔ es.Distinct ∧ ∀ e ∈ es, e.2.WellKeyed := by
  rw [WellKeyed, eachWellKeyed_iff]

namespace Settings

variable {base overlay : Entries}

theorem distinct_merge (base_distinct : base.Distinct) : (merge base overlay).Distinct := by
  induction overlay generalizing base with
  | nil =>
    rw [merge_nil]
    exact base_distinct
  | cons e overlay ih =>
    obtain ⟨k, v⟩ := e
    rw [merge_cons]
    exact ih (base_distinct.put k _)

/-! ## The keys of a merge -/

/-- **The keys of a merge**: those of the base in their order, and then those that only the overlay
has in theirs. -/
theorem keys_merge (distinct : overlay.Distinct) :
    (merge base overlay).keys =
      base.keys ++ overlay.keys.filter fun key => (base.get? key).isNone := by
  induction overlay generalizing base with
  | nil => rw [merge_nil, Entries.keys_nil, List.filter_nil, List.append_nil]
  | cons e overlay ih =>
    obtain ⟨k, v⟩ := e
    obtain ⟨apart, rest⟩ := List.pairwise_cons.1 distinct
    -- the entry written first has no say about the later keys
    have later : (Entries.keys overlay).filter
          (fun key => ((base.put k (mergeValue (base.get? k) v)).get? key).isNone) =
        (Entries.keys overlay).filter fun key => (base.get? key).isNone := by
      refine List.filter_congr fun key written => ?_
      obtain ⟨f, entry, rfl⟩ := List.mem_map.1 written
      rw [Entries.get?_put, apart f entry]
      rfl
    rw [merge_cons, ih rest, later, Entries.keys_put, Entries.keys_cons, List.filter_cons]
    cases (base.get? k).isNone with
    | true => simp
    | false => simp

/-- On every level where both have a mapping, the keys of the merge are those of the base in their
order, and then those that only the overlay has in theirs. -/
theorem keys_at_merge (keyed : (Value.map overlay).WellKeyed) {path : List Scalar}
    {old new : Entries} (below : base.at? path = some (.map old))
    (above : overlay.at? path = some (.map new)) :
    ∃ merged : Entries, (merge base overlay).at? path = some (.map merged) ∧
      merged.keys = old.keys ++ new.keys.filter fun key => (old.get? key).isNone := by
  induction path generalizing base overlay with
  | nil =>
    cases below
    cases above
    exact ⟨merge old new, rfl, keys_merge (Value.wellKeyed_map.1 keyed).1⟩
  | cons key path ih =>
    rw [Entries.at?_cons, Option.bind_eq_some_iff] at below above
    obtain ⟨v, below, beneath⟩ := below
    obtain ⟨w, above, beneath'⟩ := above
    -- whatever leads to a mapping is a mapping itself
    have mapping : ∀ {u : Value} {es : Entries}, u.at? path = some (.map es) →
        ∃ inner, u = .map inner := by
      intro u es found
      cases u with
      | map inner => exact ⟨inner, rfl⟩
      | scalar _ | list _ | set _ => cases path <;> cases found
    obtain ⟨inner, rfl⟩ := mapping beneath
    obtain ⟨inner', rfl⟩ := mapping beneath'
    obtain ⟨merged, found, keys⟩ := ih (Entries.wellKeyed_of_get? keyed above) beneath beneath'
    refine ⟨merged, ?_, keys⟩
    rw [Entries.at?_cons, get?_merge base overlay (Value.wellKeyed_map.1 keyed).1, above]
    simp only [below, mergeValue_map, Option.bind_some]
    exact found

/-! ## The laws -/

/-- A base that has each entry of the overlay already stays as it is. -/
theorem merge_eq_base
    (there : ∀ e ∈ overlay, ∃ v, base.get? e.1 = some v ∧ mergeValue (some v) e.2 = v) :
    merge base overlay = base := by
  induction overlay with
  | nil => exact merge_nil base
  | cons e overlay ih =>
    obtain ⟨k, w⟩ := e
    obtain ⟨⟨v, found, kept⟩, rest⟩ := List.forall_mem_cons.1 there
    rw [merge_cons, found, kept, Entries.put_of_get?_eq_some found]
    exact ih rest

theorem merge_eq_append (distinct : (base ++ overlay).Distinct) :
    merge base overlay = base ++ overlay := by
  induction overlay generalizing base with
  | nil => rw [merge_nil, List.append_nil]
  | cons e overlay ih =>
    obtain ⟨k, v⟩ := e
    have absent : base.get? k = none := by
      refine Entries.get?_eq_none.2 fun f entry => ?_
      exact (List.pairwise_append.1 distinct).2.2 f entry (k, v) List.mem_cons_self
    rw [merge_cons, absent, mergeValue_none, Entries.put_of_get?_eq_none absent, ih]
    · rw [List.append_assoc, List.singleton_append]
    · rwa [List.append_assoc, List.singleton_append]

/-- Onto nothing, a mapping is merged as it is. -/
theorem nil_merge {es : Entries} (distinct : es.Distinct) : merge [] es = es :=
  merge_eq_append distinct

theorem mergeValue_self {v : Value} (keyed : v.WellKeyed) : mergeValue (some v) v = v := by
  induction v using Value.nested_induction with
  | scalar _ | set _ | list _ _ => exact mergeValue_of_leaf rfl _
  | map es ih =>
    obtain ⟨distinct, each⟩ := Value.wellKeyed_map.1 keyed
    have kept : merge es es = es :=
      merge_eq_base fun e entry => ⟨e.2, distinct.get?_of_mem entry, ih e entry (each e entry)⟩
    rw [mergeValue_map]
    exact congrArg Value.map kept

/-- **A mapping merged onto itself** stays as it is. -/
theorem merge_self {es : Entries} (keyed : (Value.map es).WellKeyed) : merge es es = es := by
  have kept := mergeValue_self keyed
  rw [mergeValue_map] at kept
  exact Value.map.inj kept

theorem mergeValue_again {w : Value} (keyed : w.WellKeyed) (old : Option Value) :
    mergeValue (some (mergeValue old w)) w = mergeValue old w := by
  induction w using Value.nested_induction generalizing old with
  | scalar _ | set _ | list _ _ => rw [mergeValue_of_leaf rfl, mergeValue_of_leaf rfl]
  | map overlay ih =>
    obtain ⟨distinct, each⟩ := Value.wellKeyed_map.1 keyed
    have kept (base : Entries) : merge (merge base overlay) overlay = merge base overlay := by
      refine merge_eq_base fun e entry => ⟨mergeValue (base.get? e.1) e.2, ?_, ih e entry
        (each e entry) _⟩
      rw [get?_merge base overlay distinct, distinct.get?_of_mem entry]
    rw [mergeValue_map old]
    split
    · rw [mergeValue_map]
      exact congrArg Value.map (kept _)
    · exact mergeValue_self keyed

/-- **An overlay merged again** changes nothing. -/
theorem merge_again (keyed : (Value.map overlay).WellKeyed) (base : Entries) :
    merge (merge base overlay) overlay = merge base overlay := by
  have kept := mergeValue_again keyed (some (.map base))
  rw [mergeValue_map, mergeValue_map] at kept
  exact Value.map.inj kept

/-- The keys of the base come first already, so that nothing moves. -/
theorem keys_merge_under (base_distinct : base.Distinct) (distinct : overlay.Distinct) :
    (merge base (merge base overlay)).keys = (merge base overlay).keys := by
  have own : base.keys.filter (fun key => (base.get? key).isNone) = [] := by
    refine List.filter_eq_nil_iff.2 fun key written => ?_
    obtain ⟨e, entry, rfl⟩ := List.mem_map.1 written
    rw [base_distinct.get?_of_mem entry]
    exact Bool.false_ne_true
  rw [keys_merge (distinct_merge base_distinct), keys_merge distinct, List.filter_append, own,
    List.nil_append, List.filter_filter]
  simp only [Bool.and_self]

theorem mergeValue_under {w : Value} (keyed : w.WellKeyed) {old : Option Value}
    (old_keyed : ∀ v, old = some v → v.WellKeyed) :
    mergeValue old (mergeValue old w) = mergeValue old w := by
  induction w using Value.nested_induction generalizing old with
  | scalar _ | set _ | list _ _ => rw [mergeValue_of_leaf rfl, mergeValue_of_leaf rfl]
  | map overlay ih =>
    obtain ⟨distinct, each⟩ := Value.wellKeyed_map.1 keyed
    have kept (base : Entries) (base_keyed : (Value.map base).WellKeyed) :
        merge base (merge base overlay) = merge base overlay := by
      obtain ⟨base_distinct, -⟩ := Value.wellKeyed_map.1 base_keyed
      have merged_distinct : (merge base overlay).Distinct := distinct_merge base_distinct
      refine Entries.ext_get? (distinct_merge base_distinct) merged_distinct
        (keys_merge_under base_distinct distinct) fun key => ?_
      rw [get?_merge base _ merged_distinct, get?_merge base overlay distinct]
      have inner : ∀ v, base.get? key = some v → v.WellKeyed := fun v found =>
        Entries.wellKeyed_of_get? base_keyed found
      cases found : overlay.get? key with
      | some w =>
        obtain ⟨e, entry, -, rfl⟩ := Entries.exists_of_get?_eq_some found
        exact congrArg some (ih e entry (each e entry) inner)
      | none =>
        -- the overlay has nothing there, and the base is merged onto itself
        cases there : base.get? key with
        | none => rfl
        | some v => exact congrArg some (mergeValue_self (inner v there))
    rw [mergeValue_map old]
    split
    · next base =>
        rw [mergeValue_map]
        exact congrArg Value.map (kept base (old_keyed _ rfl))
    · next apart =>
        rw [mergeValue_map]
        split
        · next base => exact absurd rfl (apart base)
        · rfl

/-- **What was merged onto a base**, merged onto it once more, comes to the same. -/
theorem merge_under (base_keyed : (Value.map base).WellKeyed)
    (keyed : (Value.map overlay).WellKeyed) :
    merge base (merge base overlay) = merge base overlay := by
  have old_keyed : ∀ v, some (Value.map base) = some v → v.WellKeyed := by
    rintro v ⟨⟩
    exact base_keyed
  have kept := mergeValue_under keyed old_keyed
  rw [mergeValue_map, mergeValue_map] at kept
  exact Value.map.inj kept

end Settings

/-! ## Documents -/

namespace Yaml

namespace Outcome

variable {α β : Type}

theorem map_eq_ok {f : α → β} {x : Outcome α} {b : β} (h : x.map f = .ok b) :
    ∃ a, x = .ok a ∧ f a = b := by
  cases x with
  | error located => cases h
  | ok a => exact ⟨a, rfl, Except.ok.inj h⟩

theorem both_eq_ok {a : Outcome α} {b : Outcome β} {p : α × β} (h : both a b = .ok p) :
    a = .ok p.1 ∧ b = .ok p.2 := by
  unfold both at h
  split at h <;> cases h
  exact ⟨rfl, rfl⟩

theorem mem_of_all {xs : List (Outcome α)} {ys : List α} (h : all xs = .ok ys) :
    ∀ y ∈ ys, .ok y ∈ xs := by
  induction xs generalizing ys with
  | nil =>
    cases h
    simp
  | cons x xs ih =>
    obtain ⟨⟨y, rest⟩, found, rfl⟩ := map_eq_ok h
    obtain ⟨rfl, others⟩ := both_eq_ok found
    rw [List.forall_mem_cons]
    exact ⟨List.mem_cons_self, fun z there => List.mem_cons_of_mem _ (ih others z there)⟩

end Outcome

theorem wellKeyed_nodeValue {fuel depth : Nat} {n : Node} {v : Value}
    (h : nodeValue fuel depth n = .ok v) : v.WellKeyed := by
  induction fuel generalizing depth n v with
  | zero => cases h
  | succ fuel ih =>
    -- what is no mapping holds none that would have to be well keyed
    have plain : ∀ {u : Value}, u.entries? = none → u.WellKeyed := by
      intro u leaf
      cases u with
      | map es => cases leaf
      | scalar _ | list _ | set _ => simp [Value.WellKeyed]
    unfold nodeValue at h
    dsimp only at h
    split at h
    · cases h
      exact plain rfl
    · obtain ⟨_, -, rfl⟩ := Outcome.map_eq_ok h
      exact plain rfl
    · obtain ⟨_, found, rfl⟩ := Outcome.map_eq_ok h
      split at found
      · obtain ⟨pairs, together, rfl⟩ := Outcome.map_eq_ok found
        refine Value.wellKeyed_map.2 ⟨Entries.distinct_ofList pairs, fun e entry => ?_⟩
        obtain ⟨p, written, same⟩ := (Entries.of_mem_ofList entry).2
        obtain ⟨⟨k, u⟩, -, valued⟩ := List.mem_map.1 (Outcome.mem_of_all together p written)
        exact same ▸ ih (Outcome.both_eq_ok valued).2
      · cases found
    · obtain ⟨_, -, rfl⟩ := Outcome.map_eq_ok h
      exact plain rfl
    · obtain ⟨_, -, rfl⟩ := Outcome.map_eq_ok h
      exact plain rfl
    · obtain ⟨_, -, rfl⟩ := Outcome.map_eq_ok h
      exact plain rfl
    · split at h
      · cases h
      · split at h
        · cases h
        · cases h
        · split at h <;> cases h
          exact plain rfl

/-- **Every mapping of a document is well keyed.** -/
theorem wellKeyed_read {text : String} {v : Value} (h : read text = .ok v) : v.WellKeyed := by
  unfold read at h
  dsimp only at h
  split at h
  · split at h
    · cases h
    · cases h
      simp [Value.WellKeyed]
    · split at h <;> cases h
      next valued => exact wellKeyed_nodeValue valued
  · cases h

end Yaml

namespace Settings

theorem wellKeyed_mapping {file : File} {es : Entries}
    (holds : yaml.mapping? (.ok file) = some es) : (Value.map es).WellKeyed := by
  cases file with
  | absent | directory => cases holds
  | content octets =>
    rw [Format.mapping?, yaml] at holds
    cases decodes : String.fromUTF8? octets with
    | none => simp only [decodes, reduceCtorEq] at holds
    | some text =>
      simp only [decodes] at holds
      cases reads : Yaml.read text with
      | error cause => cases cause <;> simp only [reads, reduceCtorEq] at holds
      | ok v =>
        simp only [reads] at holds
        have keyed := Yaml.wellKeyed_read reads
        cases v with
        | map es' =>
          cases holds
          exact keyed
        | scalar _ | list _ | set _ => cases holds

/-! ## A file that is found twice -/

/-- What a file makes of the settings. -/
def File.onto (file : File) (settings : Entries) : Except LoadFailure Entries :=
  (yaml.contribution (.ok file)).onto (fun base overlay => .ok (merge base overlay)) settings

@[simp] theorem File.onto_absent (settings : Entries) : File.absent.onto settings = .ok settings :=
  rfl

/-- A file that is found again changes nothing. -/
theorem File.onto_again (file : File) (settings : Entries) :
    file.onto settings >>= file.onto = file.onto settings := by
  unfold File.onto
  obtain ⟨failure, -, gives⟩ | ⟨-, gives | ⟨reason, gives⟩⟩ | gives :=
    yaml.contribution_cases (.ok file)
  · rw [gives]
    rfl
  · rw [gives]
    rfl
  · rw [gives]
    rfl
  · rw [gives]
    refine congrArg Except.ok ?_
    cases holds : yaml.mapping? (.ok file) with
    | none => rw [Option.getD_none, merge_nil, merge_nil]
    | some es => exact merge_again (wellKeyed_mapping holds) settings

theorem settings_load_eq (files : Scope → File) : (load files).settings =
    (files .user).onto [] >>= fun settings =>
      (files .project).onto settings >>= (files .machine).onto := by
  rw [load, loadOnto_settings, List.foldlM_map]
  simp only [Scope.all, List.foldlM_cons, List.foldlM_nil, bind_pure]
  rfl

/-- A settings file that is found in a scope and in the next one counts once. -/
theorem settings_load_twice {files : Scope → File} {lower upper : Scope}
    (neighbours : (lower, upper) ∈ Scope.all.zip Scope.all.tail)
    (same : files lower = files upper) :
    (load files).settings = (load (Function.update files lower .absent)).settings := by
  simp only [Scope.all, List.tail_cons, List.zip_cons_cons, List.zip_nil_right, List.mem_cons,
    Prod.mk.injEq, List.not_mem_nil, or_false] at neighbours
  rw [settings_load_eq, settings_load_eq]
  rcases neighbours with ⟨rfl, rfl⟩ | ⟨rfl, rfl⟩
  · rw [← bind_assoc, same, File.onto_again]
    rfl
  · have twice : (fun settings => (files .project).onto settings >>= (files .machine).onto) =
        (files .machine).onto := by
      funext settings
      rw [same, File.onto_again]
    rw [twice]
    rfl

/-! ## The laws together -/

/-- **What is merged a second time changes nothing.** Take any two mappings, nested as they may be,
and count the order of keys. Nothing merged onto a mapping, a mapping merged onto nothing, and a
mapping merged onto itself come to the mapping; an overlay that is merged again, and a merge that is
merged onto its own base, come to the merge. On every level where both have a mapping, the keys of
the merge are those of the base in their order and then those that only the overlay has in theirs.
So a settings file that is found in two neighbouring scopes counts once. -/
theorem merge_absorbs {base overlay : Entries} (base_keyed : (Value.map base).WellKeyed)
    (overlay_keyed : (Value.map overlay).WellKeyed) :
    merge [] base = base ∧ merge base [] = base ∧ merge base base = base ∧
    merge (merge base overlay) overlay = merge base overlay ∧
    merge base (merge base overlay) = merge base overlay ∧
    (∀ (path : List Scalar) (old new : Entries), base.at? path = some (.map old) →
      overlay.at? path = some (.map new) →
        ∃ merged : Entries, (merge base overlay).at? path = some (.map merged) ∧
          merged.keys = old.keys ++ new.keys.filter fun key => (old.get? key).isNone) ∧
    ∀ (files : Scope → File) (lower upper : Scope),
      (lower, upper) ∈ Scope.all.zip Scope.all.tail → files lower = files upper →
        (load files).settings = (load (Function.update files lower .absent)).settings := by
  refine ⟨nil_merge (Value.wellKeyed_map.1 base_keyed).1, merge_nil base, merge_self base_keyed,
    merge_again overlay_keyed base, merge_under base_keyed overlay_keyed, ?_, ?_⟩
  · intro path old new below above
    exact keys_at_merge overlay_keyed below above
  · intro files lower upper neighbours same
    exact settings_load_twice neighbours same

/-- Settings that give a mapping, a text and a number. -/
def sharedSettings : Entries :=
  [(.text "resolver", .map [(.text "typings", .map [(.text "a", .bool true)]),
    (.text "types", .list [.text "node"])]), (.text "level", .int 1)]

/-- Settings that have other kinds of values under some of the same keys. -/
def machineSettings : Entries :=
  [(.text "extra", .null), (.text "resolver", .map [(.text "types", .map [(.text "deep", .null)]),
    (.text "typings", .map [(.text "b", .text "./b.d.ts"), (.text "a", .map [])])])]

/-- A mapping takes the place of a list and of a truth value, and the keys keep their places. -/
theorem merge_absorbs_clashing :
    merge (merge sharedSettings machineSettings) machineSettings =
        [(.text "resolver", .map [(.text "typings", .map [(.text "a", .map []),
            (.text "b", .text "./b.d.ts")]), (.text "types", .map [(.text "deep", .null)])]),
          (.text "level", .int 1), (.text "extra", .null)] ∧
      merge sharedSettings (merge sharedSettings machineSettings) =
        merge sharedSettings machineSettings := by
  have shared_keyed : (Value.map sharedSettings).WellKeyed := by
    simp [sharedSettings, Value.WellKeyed, Value.EachWellKeyed, Entries.Distinct]
  have machine_keyed : (Value.map machineSettings).WellKeyed := by
    simp [machineSettings, Value.WellKeyed, Value.EachWellKeyed, Entries.Distinct]
  obtain ⟨-, -, -, again, under, -, -⟩ := merge_absorbs shared_keyed machine_keyed
  refine ⟨?_, under⟩
  rw [again]
  decide

end Settings

end DepGraph
