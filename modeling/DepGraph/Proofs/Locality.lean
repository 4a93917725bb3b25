import DepGraph.Proofs.Overrides
import DepGraph.Proofs.SoleWalk

/-!
# Options act locally

Two runs are compared whose options differ in one entry: in the typings of one package, or in
whether one text is listed among the types. Only the occurrences that this entry is about can tell
the two apart, and only a file that has such an occurrence can come to something else.

* `Occurrence.Imports`, `Occurrence.Names` — the occurrences that an entry is about;
* `Options.DifferInTypings`, `Options.DifferInTypes` — options that differ in one entry;
* `Policy.inquiry_congr` — what an occurrence asks, where the options agree on it;
* `World.Comes` — what a file comes to in a run under given options;
* `Options.ActLocally`, `Options.actLocally` — whoever is not affected notices nothing;
* `Options.local_typings_and_types` — **each entry of the options acts on its own occurrences.**
-/

set_option autoImplicit false

namespace DepGraph

/-! ## What an entry is about -/

/-- The occurrence is an import, of either kind. -/
def Occurrence.IsImport (o : Occurrence) : Prop :=
  o.kind = .importSpecifier ∨ o.kind = .ambientModule

instance (o : Occurrence) : Decidable o.IsImport := inferInstanceAs (Decidable (_ ∨ _))

/-- The occurrence imports a package, or something within it. -/
def Occurrence.Imports (package : String) (o : Occurrence) : Prop :=
  o.IsImport ∧ Name.package o.text = package

instance (package : String) (o : Occurrence) : Decidable (o.Imports package) :=
  inferInstanceAs (Decidable (_ ∧ _))

/-- The occurrence has exactly this text, and is no file reference. -/
def Occurrence.Names (text : String) (o : Occurrence) : Prop :=
  o.kind ≠ .fileReference ∧ o.text = text

instance (text : String) (o : Occurrence) : Decidable (o.Names text) :=
  inferInstanceAs (Decidable (_ ∧ _))

namespace Options

/-- The options differ at most in the typings of one package. -/
structure DifferInTypings (package : String) (options options' : Options) : Prop where
  ambient : options.resolveAmbientRefs = options'.resolveAmbientRefs
  types : options.types = options'.types
  typings : ∀ other, other ≠ package → options.typingsFor other = options'.typingsFor other

/-- The options differ at most in whether one text is among the types. -/
structure DifferInTypes (text : String) (options options' : Options) : Prop where
  ambient : options.resolveAmbientRefs = options'.resolveAmbientRefs
  types : ∀ other, other ≠ text → (other ∈ options.types ↔ other ∈ options'.types)
  typings : ∀ package, options.typingsFor package = options'.typingsFor package

end Options

/-! ## What an occurrence asks -/

namespace Policy

/-- The options agree on whatever an occurrence looks at. -/
structure AgreeOn (o : Occurrence) (options options' : Options) : Prop where
  ambient : options.resolveAmbientRefs = options'.resolveAmbientRefs
  listed : o.kind ≠ .fileReference → (o.text ∈ options.types ↔ o.text ∈ options'.types)
  overridden : o.IsImport → override options o.text = override options' o.text

variable {options options' : Options} {o : Occurrence}

theorem reference_congr (ambient : options.resolveAmbientRefs = options'.resolveAmbientRefs)
    (text : String) : reference options text = reference options' text := by
  simp only [reference, referenceSpecifier, ambient]

/-- **An occurrence asks the same under options that agree on it.** -/
theorem inquiry_congr (agree : AgreeOn o options options') (origin : String) :
    inquiry options origin o = inquiry options' origin o := by
  obtain ⟨kind, text⟩ := o
  cases kind with
  | fileReference => simp only [inquiry, reference_congr agree.ambient]
  | typeReference =>
    have listed := agree.listed (by simp)
    exact typesPackage_congr listed
  | importSpecifier =>
    have listed := agree.listed (by simp)
    simp only [inquiry, importTarget_congr listed (agree.overridden (.inl rfl))]
  | ambientModule =>
    have listed := agree.listed (by simp)
    simp only [inquiry, importTarget_congr listed (agree.overridden (.inr rfl))]

end Policy

namespace Options

variable {options options' : Options} {o : Occurrence}

/-- Who does not import the package does not look at its typings. -/
theorem DifferInTypings.agreeOn {package : String} (h : DifferInTypings package options options')
    (unaffected : ¬ o.Imports package) : Policy.AgreeOn o options options' where
  ambient := h.ambient
  listed := fun _ => by rw [h.types]
  overridden := by
    intro isImport
    have other : Name.package o.text ≠ package := fun own => unaffected ⟨isImport, own⟩
    simp only [Policy.override, h.typings _ other]

/-- Who has another text does not look up this one. -/
theorem DifferInTypes.agreeOn {text : String} (h : DifferInTypes text options options')
    (unaffected : ¬ o.Names text) : Policy.AgreeOn o options options' where
  ambient := h.ambient
  listed := by
    intro kind
    exact h.types o.text fun own => unaffected ⟨kind, own⟩
  overridden := fun _ => by simp only [Policy.override, h.typings]

end Options

/-! ## What a file comes to -/

namespace World

/-- In some run under the options, which has led to world `w`, a file with these occurrences has
come to an ending, the calls of its resolver being answered by their arguments. -/
def Comes (answers : Answers) (options : Options) (occurrences : List Occurrence) (w : World)
    (id : FileId) (ending : Ending Fault Dependencies) : Prop :=
  ∃ (envs : Nat → Environment) (libName : String) (registries : Nat → Registry)
    (actions : List Action) (r : Record) (work : Work),
    w = (initial options libName registries).run envs actions ∧ w.store.record? id = some r ∧
      r.work = some work ∧ work.occurrences = occurrences ∧
      (envs work.resolver).Gives answers ∧ r.cell.stage = .ended ending

variable {answers : Answers} {options : Options} {occurrences : List Occurrence} {w : World}
  {id : FileId} {ending : Ending Fault Dependencies}

theorem Comes.closed (h : Comes answers options occurrences w id ending) :
    ∃ env resolver l, env.Gives answers ∧
      Lane.Closed env options id resolver occurrences ending l := by
  obtain ⟨envs, libName, registries, actions, r, work, rfl, hr, hwork, rfl, gives, stage⟩ := h
  obtain ⟨l, closed⟩ := closed_of_record hr hwork stage
  exact ⟨_, _, l, gives, closed⟩

/-- What a file has come to can be read off the record that a run leaves of it. -/
theorem comes_of_run {envs : Nat → Environment} {libName : String} {registries : Nat → Registry}
    {actions : List Action} {resolver : Nat}
    (left : (((initial options libName registries).run envs actions).store.record? id).map
        (fun r => (r.work.map fun work => (work.resolver, work.occurrences), r.cell.stage)) =
      some (some (resolver, occurrences), .ended ending))
    (gives : (envs resolver).Gives answers) :
    Comes answers options occurrences ((initial options libName registries).run envs actions) id
      ending := by
  obtain ⟨r, work, hr, hwork, rfl, rfl, stage⟩ := exists_record left
  exact ⟨envs, libName, registries, actions, r, work, rfl, hr, hwork, rfl, gives, stage⟩

/-- A file returns if and only if each of its occurrences does. -/
theorem Comes.returned_iff (h : Comes answers options occurrences w id ending) :
    ending.isReturned = true ↔ ∀ o ∈ occurrences,
      (answers.evaluate id.name (Policy.inquiry options id.name o)).isReturned = true := by
  obtain ⟨env, resolver, l, gives, closed⟩ := h.closed
  exact (closed.agrees gives).returned

/-- What a file has returned maps its texts to what its occurrences come to. -/
theorem Comes.mappings {info : Dependencies}
    (h : Comes answers options occurrences w id (.returned info)) :
    ∃ addresses, answers.addresses options id.name occurrences = some addresses ∧
      info.mappings = Dependencies.merge ((occurrences.map (·.text)).zip addresses) := by
  obtain ⟨env, resolver, l, gives, closed⟩ := h.closed
  obtain ⟨addresses, registry, found, rfl⟩ := closed.addresses gives
  exact ⟨addresses, found, rfl⟩

/-- Files of one name and with the same occurrences come to the same, if each occurrence does. -/
theorem Comes.alike {options' : Options} {w' : World} {id' : FileId}
    {ending' : Ending Fault Dependencies} (h : Comes answers options occurrences w id ending)
    (h' : Comes answers options' occurrences w' id' ending') (named : id'.name = id.name)
    (same : ∀ o ∈ occurrences, answers.evaluate id.name (Policy.inquiry options id.name o) =
      answers.evaluate id.name (Policy.inquiry options' id.name o)) :
    ending.isReturned = ending'.isReturned ∧
      ∀ info info', ending = .returned info → ending' = .returned info' →
        info.mappings = info'.mappings := by
  constructor
  · rw [Bool.eq_iff_iff, h.returned_iff, h'.returned_iff, named]
    exact forall₂_congr fun o ho => by rw [same o ho]
  · rintro info info' rfl rfl
    obtain ⟨addresses, found, mappings⟩ := h.mappings
    obtain ⟨addresses', found', mappings'⟩ := h'.mappings
    have asked : answers.addresses options id.name occurrences =
        answers.addresses options' id'.name occurrences := by
      rw [named]
      refine congrArg Tally.values? (List.map_congr_left fun o ho => ?_)
      rw [same o ho]
    rw [asked, found'] at found
    cases found
    rw [mappings, mappings']

end World

/-! ## Two runs -/

namespace Options

/-- Between two options values only some occurrences are affected. -/
structure ActLocally (affected : Occurrence → Prop) (options options' : Options) : Prop where
  /-- An occurrence that is not affected asks the same, whatever it is answered. -/
  asks : ∀ o, ¬ affected o → ∀ origin,
    Policy.inquiry options origin o = Policy.inquiry options' origin o
  /-- With answers that are fixed by the arguments of a call it gets the same address or the same
  failure, and makes the same calls, however long it waits for each. -/
  occurrence : ∀ o, ¬ affected o → ∀ (answers : Answers) (env env' : Environment),
    env.Gives answers → env'.Gives answers → ∀ (id id' : FileId) (i i' : Nat), id'.name = id.name →
      let work := (Policy.inquiry options id.name o).script env id i 0
      let work' := (Policy.inquiry options' id'.name o).script env' id' i' 0
      work.ending = work'.ending ∧ callsOf work.events = callsOf work'.events
  /-- A file without affected occurrences fails in both cases or in none, and maps its texts to the
  same addresses, in any two runs. -/
  file : ∀ (answers : Answers) (occurrences : List Occurrence), (∀ o ∈ occurrences, ¬ affected o) →
    ∀ (w w' : World) (id id' : FileId) (ending ending' : Ending Fault Dependencies),
      id'.name = id.name → World.Comes answers options occurrences w id ending →
      World.Comes answers options' occurrences w' id' ending' →
        ending.isReturned = ending'.isReturned ∧
          ∀ info info', ending = .returned info → ending' = .returned info' →
            info.mappings = info'.mappings

/-- Options act locally where they agree on all occurrences that are not affected. -/
theorem actLocally {affected : Occurrence → Prop} {options options' : Options}
    (agree : ∀ o, ¬ affected o → Policy.AgreeOn o options options') :
    ActLocally affected options options' := by
  have asks : ∀ o, ¬ affected o → ∀ origin,
      Policy.inquiry options origin o = Policy.inquiry options' origin o :=
    fun o unaffected => Policy.inquiry_congr (agree o unaffected)
  refine ⟨asks, ?_, ?_⟩
  · intro o unaffected answers env env' gives gives' id id' i i' named work work'
    constructor
    · exact (ending_script gives id i 0 _).trans
        (by rw [ending_script gives' id' i' 0, named, asks o unaffected])
    · exact (callsOf_script gives id i 0 _).trans
        (by rw [callsOf_script gives' id' i' 0, named, asks o unaffected])
  · intro answers occurrences unaffected w w' id id' ending ending' named h h'
    exact h.alike h' named fun o ho => by rw [asks o (unaffected o ho)]

/-- **Each entry of the options acts on its own occurrences.** If two options values differ in the
typings of one package alone, only imports of that package or of something within it can tell: every
other occurrence asks the same, gets the same address or the same failure and makes the same calls,
so that malformed typings make no file fail that does not import the package. If they differ only in
whether a text is among the types, only occurrences of exactly that text can tell, and of these no
file references. -/
theorem local_typings_and_types (options options' : Options) :
    (∀ package, DifferInTypings package options options' →
      ActLocally (Occurrence.Imports package) options options') ∧
    ∀ text, DifferInTypes text options options' →
      ActLocally (Occurrence.Names text) options options' := by
  constructor
  · intro package differ
    exact actLocally fun o => differ.agreeOn
  · intro text differ
    exact actLocally fun o => differ.agreeOn

/-- Every file imports a package and refers to the types of another, and each call is answered once
a gate is open. -/
def importing : Nat → Environment := fun _ =>
  .constant { typeReferences := ["lib"], imports := ["other"] }
    { gates := ["g"], outcome := .returned "found.js" }

/-- A file is added and asked for, and gets what it waits for. -/
def importingRun : List Action :=
  [.add "a" "", .resolve 0 "a"] ++ List.replicate 4 .tick ++ [.release "g"] ++
    List.replicate 8 .tick

/-- Malformed typings of `lib` make its import fail, but not a reference to its types, nor a file
that imports something else; and whether `other` is among the types is of no concern to an import
of something within it. -/
theorem local_typings_and_types_malformed :
    let malformed : Options := { typings := [("lib", .int 5)] }
    let listing : Options := { types := ["other"] }
    let answers : Answers := ⟨fun _ _ => .returned "found.js", fun _ => .returned ⟨[]⟩⟩
    let occurrences : List Occurrence := [⟨.typeReference, "lib"⟩, ⟨.importSpecifier, "other"⟩]
    let ran := fun options =>
      (World.initial options defaultLibName fun _ => {}).run importing importingRun
    (∃ info info',
      World.Comes answers {} occurrences (ran {}) ⟨"a", 0⟩ (.returned info) ∧
      World.Comes answers malformed occurrences (ran malformed) ⟨"a", 0⟩ (.returned info') ∧
      info.mappings = info'.mappings) ∧
    answers.evaluate "a" (Policy.inquiry malformed "a" ⟨.importSpecifier, "lib"⟩) =
      .raised (.badTypings (.int 5) "found.js") ∧
    answers.evaluate "a" (Policy.inquiry {} "a" ⟨.importSpecifier, "lib"⟩) =
      .returned (some "found.js") ∧
    Policy.inquiry {} "a" ⟨.importSpecifier, "other/sub"⟩ =
      Policy.inquiry listing "a" ⟨.importSpecifier, "other/sub"⟩ := by
  intro malformed listing answers occurrences ran
  have gives : (importing 0).Gives answers := Environment.constant_gives _ _
  have differ : DifferInTypings "lib" {} malformed := by
    refine ⟨rfl, rfl, fun other apart => ?_⟩
    rw [typingsFor, typingsFor, List.lookup_cons, beq_false_of_ne apart]
  have differ' : DifferInTypes "other" {} listing := by
    refine ⟨rfl, fun other apart => ?_, fun _ => rfl⟩
    simp [listing, apart]
  let info : Dependencies := ⟨[("lib", none), ("other", some "found.js")], []⟩
  have comes : World.Comes answers {} occurrences (ran {}) ⟨"a", 0⟩ (.returned info) :=
    World.comes_of_run (by decide +kernel) gives
  have comes' : World.Comes answers malformed occurrences (ran malformed) ⟨"a", 0⟩
      (.returned info) :=
    World.comes_of_run (by decide +kernel) gives
  refine ⟨⟨info, info, comes, comes', ?_⟩, by rfl, by rfl, ?_⟩
  · have unaffected : ∀ o ∈ occurrences, ¬ o.Imports "lib" := by decide
    have alike := ((local_typings_and_types {} malformed).1 "lib" differ).file answers occurrences
      unaffected _ _ _ _ _ _ rfl comes comes'
    exact alike.2 info info rfl rfl
  · exact ((local_typings_and_types {} listing).2 "other" differ').asks
      ⟨.importSpecifier, "other/sub"⟩ (by decide) "a"

end Options

end DepGraph
