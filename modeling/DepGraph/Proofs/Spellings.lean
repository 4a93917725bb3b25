import DepGraph.Proofs.Mappings
import DepGraph.Settings.Layers
import DepGraph.Settings.Options

/-!
# One option under two spellings

The settings of several scopes are merged key by key, and the first option may be given under
either of two keys. The keys are told apart while merging and made one only when the options are
read, where the camel-case one wins. So the scopes are searched twice: for the camel-case key, the
most specific scope first, and only if none has it for the other key.

* `truth?` — what settings say about the option under one key;
* `Proper` — settings that say nothing else under these keys;
* `truth?_layer` — for one key, the most specific scope wins;
* `ofSettings_layer` — for both, what the option is, and when it is what the most specific scope
  says.
-/

set_option autoImplicit false

namespace DepGraph.Settings

open Options

/-! ## The section -/

/-- The value under a key of the `resolver` section of settings. -/
def given? (key : String) (settings : Entries) : Option Value :=
  (settings.field? "resolver").bind (Value.field? key)

/-- The truth value under a key of the `resolver` section of settings. -/
def truth? (key : String) (settings : Entries) : Option Bool :=
  (given? key settings).bind fun v => (readTruth v).toOption

/-- The two spellings of the first option. -/
def spellings : List String := ["resolveAmbientRefs", "resolve_ambient_refs"]

/-- The `resolver` section, if there is one, is a mapping that holds nothing but truth values under
the spellings of the first option. -/
structure Sound (settings : Entries) : Prop where
  mapping : ∀ v, settings.field? "resolver" = some v → ∃ es, v = .map es
  readable : ∀ key ∈ spellings, ∀ v, given? key settings = some v → ∃ b, readTruth v = .ok b

/-- Settings with a sound section, where keys are written once: those of the settings, and those of
the section. -/
structure Proper (settings : Entries) : Prop extends Sound settings where
  distinct : settings.Distinct
  distinct_section : ∀ es, settings.field? "resolver" = some (.map es) → Entries.Distinct es

theorem sound_nil : Sound [] where
  mapping _ found := by cases found
  readable _ _ _ found := by cases found

theorem proper_nil : Proper [] where
  toSound := sound_nil
  distinct := List.Pairwise.nil
  distinct_section _ found := by cases found

/-- Settings that consist of one truth value in the section. -/
def only (key : String) (v : Value) : Entries := [(.text "resolver", .map [(.text key, v)])]

theorem proper_only {key : String} {v : Value} {b : Bool} (reads : readTruth v = .ok b) :
    Proper (only key v) where
  mapping _ found := ⟨_, (Option.some.inj found).symm⟩
  readable other _ w found := by
    -- a key of the section names its single entry or none
    have inSection : (if (Scalar.text key).sameKey (.text other) then some v else none) = some w :=
      found
    split at inSection <;> cases inSection
    exact ⟨b, reads⟩
  distinct := List.pairwise_singleton _ _
  distinct_section es found := by
    cases found
    exact List.pairwise_singleton _ _

variable {base overlay settings : Entries} {key : String}

/-- A truth value is no mapping. -/
theorem entries?_of_readTruth {v : Value} {b : Bool} (reads : readTruth v = .ok b) :
    v.entries? = none := by
  cases v with
  | map es => cases reads
  | scalar _ | list _ | set _ => rfl

theorem section_cases (sound : Sound settings) :
    settings.field? "resolver" = none ∨ ∃ es, settings.field? "resolver" = some (.map es) := by
  cases found : settings.field? "resolver" with
  | none => exact .inl rfl
  | some v =>
    obtain ⟨es, rfl⟩ := sound.mapping v found
    exact .inr ⟨es, rfl⟩

theorem given?_of_none (absent : settings.field? "resolver" = none) :
    given? key settings = none := by
  rw [given?, absent, Option.bind_none]

theorem given?_of_map {es : Entries} (found : settings.field? "resolver" = some (.map es)) :
    given? key settings = es.field? key := by
  rw [given?, found, Option.bind_some, Value.field?]

/-! ## Merging one scope -/

theorem section_merge (proper : Proper overlay) :
    (merge base overlay).field? "resolver" =
      match overlay.field? "resolver" with
      | none => base.field? "resolver"
      | some v => some (mergeValue (base.field? "resolver") v) :=
  get?_merge base overlay proper.distinct _

/-- A section is merged key by key. -/
theorem given?_merge (sound : Sound base) (proper : Proper overlay) (key : String) :
    given? key (merge base overlay) =
      match given? key overlay with
      | none => given? key base
      | some v => some (mergeValue (given? key base) v) := by
  have merged : (merge base overlay).field? "resolver" = _ := section_merge proper
  obtain absent | ⟨es, found⟩ := section_cases proper.toSound
  · rw [absent] at merged
    rw [given?_of_none absent, given?, merged, given?]
  · rw [found] at merged
    dsimp only at merged
    rw [mergeValue_map] at merged
    rw [given?_of_map found]
    obtain absent | ⟨bs, under⟩ := section_cases sound
    · rw [absent] at merged
      rw [given?_of_map merged, given?_of_none absent]
      cases Entries.field? key es with
      | none => rfl
      | some v => exact congrArg some (mergeValue_none v).symm
    · rw [under] at merged
      rw [given?_of_map merged, given?_of_map under]
      exact get?_merge bs es (proper.distinct_section es found) _

/-- What the overlay says about the option stands before what the base says. -/
theorem truth?_merge (sound : Sound base) (proper : Proper overlay) (spelling : key ∈ spellings) :
    truth? key (merge base overlay) = (truth? key overlay).or (truth? key base) := by
  rw [truth?, truth?, truth?, given?_merge sound proper]
  cases said : given? key overlay with
  | none => rfl
  | some v =>
    obtain ⟨b, reads⟩ := proper.readable key spelling v said
    dsimp only
    rw [mergeValue_of_leaf (entries?_of_readTruth reads), Option.bind_some, reads]
    rfl

theorem Sound.merge (sound : Sound base) (proper : Proper overlay) :
    Sound (Settings.merge base overlay) where
  mapping v found := by
    rw [section_merge proper] at found
    obtain absent | ⟨es, under⟩ := section_cases proper.toSound
    · rw [absent] at found
      exact sound.mapping v found
    · rw [under] at found
      dsimp only at found
      rw [mergeValue_map] at found
      split at found <;> cases found <;> exact ⟨_, rfl⟩
  readable key spelling v found := by
    rw [given?_merge sound proper] at found
    cases said : given? key overlay with
    | none =>
      rw [said] at found
      exact sound.readable key spelling v found
    | some w =>
      obtain ⟨b, reads⟩ := proper.readable key spelling w said
      rw [said] at found
      dsimp only at found
      rw [mergeValue_of_leaf (entries?_of_readTruth reads)] at found
      cases found
      exact ⟨b, reads⟩

/-! ## Merging all scopes -/

/-- For each spelling the most specific scope that uses it wins. -/
theorem truth?_foldl (sound : Sound base) (layers : List Entries)
    (proper : ∀ given ∈ layers, Proper given) :
    Sound (layers.foldl merge base) ∧ ∀ key ∈ spellings,
      truth? key (layers.foldl merge base) =
        (layers.reverse.findSome? (truth? key)).or (truth? key base) := by
  induction layers generalizing base with
  | nil => exact ⟨sound, fun key _ => by rw [List.reverse_nil, List.findSome?_nil]; rfl⟩
  | cons given layers ih =>
    rw [List.forall_mem_cons] at proper
    obtain ⟨kept, wins⟩ := ih (sound.merge proper.1) proper.2
    refine ⟨kept, fun key spelling => ?_⟩
    rw [List.foldl_cons, wins key spelling, truth?_merge sound proper.1 spelling,
      List.reverse_cons, List.findSome?_append, List.findSome?_singleton, Option.or_assoc]

theorem truth?_layer (given : Scope → Entries) (proper : ∀ scope, Proper (given scope)) :
    Sound (layer (Scope.all.map given)) ∧ ∀ key ∈ spellings,
      truth? key (layer (Scope.all.map given)) =
        Scope.all.reverse.findSome? fun scope => truth? key (given scope) := by
  obtain ⟨sound, wins⟩ := truth?_foldl sound_nil (Scope.all.map given)
    (List.forall_mem_map.2 fun scope _ => proper scope)
  refine ⟨sound, fun key spelling => ?_⟩
  rw [layer, wins key spelling, ← List.map_reverse, List.findSome?_map]
  exact Option.or_none

/-! ## Reading the option -/

/-- The entries of the `resolver` section of settings. -/
def sectionOf (settings : Entries) : Entries :=
  ((settings.field? "resolver").bind Value.entries?).getD []

theorem field?_sectionOf (sound : Sound settings) (key : String) :
    (sectionOf settings).field? key = given? key settings := by
  obtain absent | ⟨es, found⟩ := section_cases sound
  · rw [given?_of_none absent, sectionOf, absent]
    rfl
  · rw [given?_of_map found, sectionOf, found]
    rfl

theorem ofSettings_eq (sound : Sound settings) :
    ofSettings settings = ofEntries (sectionOf settings) := by
  obtain absent | ⟨es, found⟩ := section_cases sound
  · rw [ofSettings, sectionOf, absent]
    rfl
  · rw [ofSettings, sectionOf, found]
    cases es <;> rfl

/-- Sound settings give the option without a problem, the camel-case key before the other. -/
theorem readAmbient_sectionOf (sound : Sound settings) :
    readAmbient (sectionOf settings) =
      ([], ((truth? "resolveAmbientRefs" settings).or
        (truth? "resolve_ambient_refs" settings)).getD false) := by
  have readable := sound.readable
  simp only [spellings, List.forall_mem_cons] at readable
  obtain ⟨camel, snake, -⟩ := readable
  rw [readAmbient, ambientKey?, field?_sectionOf sound, field?_sectionOf sound, truth?, truth?]
  cases givenCamel : given? "resolveAmbientRefs" settings with
  | some v =>
    obtain ⟨b, reads⟩ := camel v givenCamel
    simp [field?_sectionOf sound, givenCamel, reads, Except.toOption]
  | none =>
    cases givenSnake : given? "resolve_ambient_refs" settings with
    | some v =>
      obtain ⟨b, reads⟩ := snake v givenSnake
      simp [field?_sectionOf sound, givenSnake, reads, Except.toOption]
    | none => simp

/-- Searching for either of two things at once finds the same as searching for the first and, if
there is none, for the second, as long as nothing that is only the second stands before something
that is the first. -/
theorem findSome?_or {α β : Type} (first second : α → Option β) (items : List α)
    (ordered : items.Pairwise fun x y =>
      first x = none → second x ≠ none → first y = none) :
    (items.findSome? fun x => (first x).or (second x)) =
      (items.findSome? first).or (items.findSome? second) := by
  induction items with
  | nil => rfl
  | cons x items ih =>
    obtain ⟨ahead, rest⟩ := List.pairwise_cons.1 ordered
    rw [List.findSome?_cons, List.findSome?_cons, List.findSome?_cons, ih rest]
    cases isFirst : first x with
    | some b => rfl
    | none =>
      cases isSecond : second x with
      | none => rfl
      | some b =>
        have nothing : items.findSome? first = none :=
          List.findSome?_eq_none_iff.2 fun y hy =>
            ahead y hy isFirst (by rw [isSecond]; exact Option.some_ne_none b)
        rw [nothing]
        rfl

/-- The options of layered settings, each of which says nothing but truth values about the first
option. They are read without a problem about that option, whatever the others are; it is what the
most specific scope says that uses the camel-case key, or else what the most specific scope says
that uses the other key, or else false. That is what the most specific scope says at all, unless
one that uses only the other key stands above one that uses the camel-case key. -/
theorem ofSettings_layer (given : Scope → Entries) (proper : ∀ scope, Proper (given scope)) :
    let settings := layer (Scope.all.map given)
    let camel := fun scope => truth? "resolveAmbientRefs" (given scope)
    let snake := fun scope => truth? "resolve_ambient_refs" (given scope)
    let ambient := ((Scope.all.reverse.findSome? camel).or
      (Scope.all.reverse.findSome? snake)).getD false
    ofSettings settings =
        (match (readTypes (sectionOf settings)).1 ++ (readTypingsField (sectionOf settings)).1 with
        | [] => .ok ⟨ambient, (readTypes (sectionOf settings)).2,
            (readTypingsField (sectionOf settings)).2⟩
        | problems => .error problems) ∧
      ((Scope.all.reverse.Pairwise fun specific general =>
          camel specific = none → snake specific ≠ none → camel general = none) →
        ambient =
          (Scope.all.reverse.findSome? fun scope => (camel scope).or (snake scope)).getD false) := by
  intro settings camel snake ambient
  obtain ⟨sound, wins⟩ := truth?_layer given proper
  constructor
  · have read : readAmbient (sectionOf settings) = ([], ambient) := by
      rw [readAmbient_sectionOf sound, wins _ (by decide), wins _ (by decide)]
    rw [ofSettings_eq sound, ofEntries, read]
    rfl
  · intro ordered
    rw [findSome?_or camel snake _ ordered]

/-- A user's settings under one spelling, and those of a project under the other. -/
def spelledApart : Scope → Entries
  | .user => only "resolve_ambient_refs" (.bool true)
  | .project => only "resolveAmbientRefs" (.text "no")
  | .machine => []

theorem proper_spelledApart (scope : Scope) : Proper (spelledApart scope) := by
  cases scope with
  | user => exact proper_only (b := true) rfl
  | project => exact proper_only (b := false) rfl
  | machine => exact proper_nil

/-- Here the project wins over the user, for it uses the camel-case key. -/
theorem ofSettings_layer_apart :
    ofSettings (layer (Scope.all.map spelledApart)) = .ok { resolveAmbientRefs := false } ∧
      (Scope.all.reverse.findSome? fun scope =>
        (truth? "resolveAmbientRefs" (spelledApart scope)).or
          (truth? "resolve_ambient_refs" (spelledApart scope))) = some false := by
  obtain ⟨loaded, reads⟩ := ofSettings_layer spelledApart proper_spelledApart
  have value := reads (by decide)
  refine ⟨?_, by decide⟩
  rw [loaded, value]
  rfl

/-- The same two spellings the other way round: the user's settings use the camel-case key, those
of the machine the other. -/
def spelledAcross : Scope → Entries
  | .user => only "resolveAmbientRefs" (.bool true)
  | .project => []
  | .machine => only "resolve_ambient_refs" (.bool false)

/-- The most specific scope that says anything about the option says false, and yet it is true. -/
theorem ofSettings_layer_across :
    (∀ scope, Proper (spelledAcross scope)) ∧
      (Scope.all.reverse.findSome? fun scope =>
        (truth? "resolveAmbientRefs" (spelledAcross scope)).or
          (truth? "resolve_ambient_refs" (spelledAcross scope))) = some false ∧
      ofSettings (layer (Scope.all.map spelledAcross)) = .ok { resolveAmbientRefs := true } := by
  refine ⟨fun scope => ?_, by decide, rfl⟩
  cases scope with
  | user => exact proper_only (b := true) rfl
  | project => exact proper_nil
  | machine => exact proper_only (b := false) rfl

end DepGraph.Settings
