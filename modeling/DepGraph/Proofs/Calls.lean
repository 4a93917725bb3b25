import DepGraph.Proofs.Aftermath
import DepGraph.Proofs.Suffixes

/-!
# The calls of one specifier

Which calls a specifier makes, in which order, and what it comes to, when every call is answered by
its arguments. The calls are told from the events that the work on the specifier logs, whatever
gates the answers wait for.

* `Answers.calls` — the calls of an inquiry, and `callsOf_script`, which finds them in the log;
* `Answers.calls_bind`, `Answers.evaluate_bind` — the calls of one inquiry after another;
* `Policy.ReferenceCalls`, `Policy.TypeReferenceCalls`, `Policy.ImportCalls` — what each kind of
  specifier asks;
* `Policy.calls_inquiry` — every specifier keeps to that;
* `World.calls_run` — and so it does in every run.
-/

set_option autoImplicit false

namespace DepGraph

/-- The call that an event logs, if it does. -/
def Event.call? : Event → Option Call
  | .called _ call => some call
  | _ => none

/-- Whether a call looks up a descriptor. -/
def Call.isLookup : Call → Bool
  | .descriptor _ => true
  | _ => false

/-- The calls that events log, in order. -/
def callsOf (events : List Event) : List Call := events.filterMap Event.call?

/-- An ending with its value changed. -/
def Ending.map {φ α β : Type} (f : α → β) : Ending φ α → Ending φ β
  | returned a => .returned (f a)
  | raised fault => .raised fault
  | cancelled => .cancelled

namespace Ending

variable {φ α β γ : Type}

theorem map_map (ending : Ending φ α) (f : α → β) (g : β → γ) :
    (ending.map f).map g = ending.map fun a => g (f a) := by
  cases ending <;> rfl

theorem failure?_map (ending : Ending φ α) (f : α → β) :
    (ending.map f).failure? = ending.failure? := by
  cases ending <;> rfl

end Ending

/-- The calls of an inquiry of a file when every call is answered at once. -/
def Answers.calls {α : Type} (answers : Answers) (file : String) : Inquiry α → List Call
  | .answer _ => []
  | .fault _ => []
  | .address specifier next =>
    .address specifier file :: match answers.address specifier file with
      | .returned a => calls answers file (next a)
      | _ => []
  | .descriptor a _ next =>
    .descriptor a :: match answers.descriptor a with
      | .returned d => calls answers file (next d)
      | _ => []
  | .note _ next => calls answers file next

/-- Functions that give these answers, each once some gates are open, and no text. -/
def Answers.behind (answers : Answers) (gates : List Gate) : Environment where
  address _ specifier origin := ⟨gates, answers.address specifier origin⟩
  descriptor _ address := ⟨gates, answers.descriptor address⟩
  source _ _ := ⟨gates, .cancelled⟩
  extract _ := .ok ({}, [])

theorem Answers.behind_gives (answers : Answers) (gates : List Gate) :
    (answers.behind gates).Gives answers :=
  ⟨fun _ _ _ => rfl, fun _ _ => rfl⟩

variable {α β : Type} {env : Environment} {answers : Answers}

/-- The work on an inquiry logs its calls, whatever gates the answers wait for. -/
theorem callsOf_script (fixed : env.Gives answers) (id : FileId) (i stage : Nat) (q : Inquiry α) :
    callsOf (q.script env id i stage).events = answers.calls id.name q := by
  induction q generalizing stage with
  | answer a => rfl
  | fault f => rfl
  | address specifier next ih =>
    rw [Inquiry.script, Inquiry.events_callScript, fixed.address, Answers.calls]
    cases answers.address specifier id.name with
    | returned a => exact congrArg (_ :: ·) (ih a _)
    | raised cause => rfl
    | cancelled => rfl
  | descriptor a specifier next ih =>
    rw [Inquiry.script, Inquiry.events_callScript, fixed.descriptor, Answers.calls]
    cases answers.descriptor a with
    | returned d => exact congrArg (_ :: ·) (ih d _)
    | raised cause => rfl
    | cancelled => rfl
  | note n next ih => exact ih _

theorem ending_script (fixed : env.Gives answers) (id : FileId) (i stage : Nat) (q : Inquiry α) :
    (q.script env id i stage).ending = answers.evaluate id.name q := by
  rw [Inquiry.script_ending, fixed.evaluate]

/-! ## One inquiry after another -/

namespace Answers

variable (answers) (file : String)

theorem evaluate_bind (q : Inquiry α) (k : α → Inquiry β) :
    answers.evaluate file (q.bind k) =
      match answers.evaluate file q with
      | .returned a => answers.evaluate file (k a)
      | .raised f => .raised f
      | .cancelled => .cancelled := by
  induction q with
  | answer a => rfl
  | fault f => rfl
  | address specifier next ih =>
    simp only [Inquiry.bind, evaluate]
    cases answers.address specifier file with
    | returned a => exact ih a
    | raised cause => rfl
    | cancelled => rfl
  | descriptor a specifier next ih =>
    simp only [Inquiry.bind, evaluate]
    cases answers.descriptor a with
    | returned d => exact ih d
    | raised cause => rfl
    | cancelled => rfl
  | note n next ih => exact ih

theorem calls_bind (q : Inquiry α) (k : α → Inquiry β) :
    answers.calls file (q.bind k) =
      answers.calls file q ++ match answers.evaluate file q with
        | .returned a => answers.calls file (k a)
        | _ => [] := by
  induction q with
  | answer a => rfl
  | fault f => rfl
  | address specifier next ih =>
    simp only [Inquiry.bind, evaluate, calls]
    cases answers.address specifier file with
    | returned a => exact congrArg (_ :: ·) (ih a)
    | raised cause => rfl
    | cancelled => rfl
  | descriptor a specifier next ih =>
    simp only [Inquiry.bind, evaluate, calls]
    cases answers.descriptor a with
    | returned d => exact congrArg (_ :: ·) (ih d)
    | raised cause => rfl
    | cancelled => rfl
  | note n next ih => exact ih

/-- A value that is only changed takes no further call. -/
theorem evaluate_map (q : Inquiry α) (f : α → β) :
    answers.evaluate file (q.bind fun a => .answer (f a)) = (answers.evaluate file q).map f := by
  rw [evaluate_bind]
  cases answers.evaluate file q <;> rfl

theorem calls_map (q : Inquiry α) (f : α → β) :
    answers.calls file (q.bind fun a => .answer (f a)) = answers.calls file q := by
  rw [calls_bind]
  cases answers.evaluate file q <;> exact List.append_nil _

/-- The address that a specifier stands for, or the fault of the call for it. -/
def found (specifier : String) : Ending Fault String :=
  answers.evaluate file (Inquiry.askAddress specifier)

/-- The descriptor of the package at an address, asked for on behalf of a specifier, or the fault
of the call for it. -/
def described (address specifier : String) : Ending Fault Descriptor :=
  answers.evaluate file (Inquiry.askDescriptor address specifier)

theorem calls_askAddress (specifier : String) :
    answers.calls file (Inquiry.askAddress specifier) = [.address specifier file] := by
  simp only [Inquiry.askAddress, calls]
  cases answers.address specifier file <;> rfl

theorem calls_askDescriptor (address specifier : String) :
    answers.calls file (Inquiry.askDescriptor address specifier) = [.descriptor address] := by
  simp only [Inquiry.askDescriptor, calls]
  cases answers.descriptor address <;> rfl

end Answers

/-! ## The specifiers that are asked for -/

namespace Policy

/-- What is asked for on behalf of a file reference starts from the referring file or has a slash
of its own, and is a bare name only if the options want that. -/
theorem referenceSpecifier_spec (options : Options) (text : String) :
    (referenceSpecifier options text = text ∨ referenceSpecifier options text = "./" ++ text) ∧
      '/' ∈ (referenceSpecifier options text).toList ∧
      (Name.isAmbient (referenceSpecifier options text) = true →
        options.resolveAmbientRefs = true) := by
  unfold referenceSpecifier
  split
  · refine ⟨.inr rfl, by simp, fun ambient => ?_⟩
    simp [Name.isAmbient, Name.isRelative] at ambient
  · next taken =>
      simp only [Bool.or_eq_true, Bool.and_eq_true, Bool.not_eq_true', not_or, not_and,
        Bool.not_eq_false, List.contains_iff_mem] at taken
      exact ⟨.inl rfl, taken.2, taken.1⟩

/-- What is asked for on behalf of an import is the import itself, or the declaration next to it:
always a declaration where a declaration file names something relative to itself. -/
theorem importSpecifier_spec (origin text : String) :
    (importSpecifier origin text = text ∨ importSpecifier origin text = text ++ ".d.ts") ∧
      (Name.isDeclaration origin = true → Name.isRelative text = true →
        Name.isDeclaration (importSpecifier origin text) = true) := by
  unfold importSpecifier
  split
  · exact ⟨.inr rfl, fun _ _ => Name.isDeclaration_append text⟩
  · next kept =>
      refine ⟨.inl rfl, fun declares relative => ?_⟩
      simpa [declares, relative] using kept

/-! ## What each kind asks -/

section Kinds

variable (options : Options) (answers : Answers) (origin text : String) (calls : List Call)
  (ending : Ending Fault (Option String))

/-- A file reference asks for one address and gets what it comes to. -/
structure ReferenceCalls : Prop where
  once : calls = [.address (referenceSpecifier options text) origin]
  answer : ending = (answers.found origin (referenceSpecifier options text)).map some
  spelled : referenceSpecifier options text = text ∨ referenceSpecifier options text = "./" ++ text
  slash : '/' ∈ (referenceSpecifier options text).toList
  ambient : Name.isAmbient (referenceSpecifier options text) = true →
    options.resolveAmbientRefs = true

/-- A type reference asks for one address among the typings packages, and only if it is listed. -/
structure TypeReferenceCalls : Prop where
  unlisted : text ∉ options.types → calls = [] ∧ ending = .returned none
  listed : text ∈ options.types → calls = [.address ("@types/" ++ text) origin] ∧
    ending = (answers.found origin ("@types/" ++ text)).map fun found => some (declarationIn found)

/-- An import of `origin` stands for the script at `address`. -/
structure StandsFor (address : String) : Prop where
  found : answers.found origin (importSpecifier origin text) = .returned address
  script : Name.isScript address = true

/-- No typings that count as given are configured for the package of a specifier. -/
def Unconfigured : Prop :=
  ∀ given, options.typingsFor (Name.package text) = some given → given.truthy = false

/-- What is asked after some calls, and what comes of it, once the value of the typings of the
package is known: nothing more unless it is a path, and then for that path within the package. -/
def Discovers (address : String) (value : Value) (before : List Call) : Prop :=
  let declared := fun path => Name.package text ++ "/" ++ Name.withoutRelativeMarker path
  match Typings.parse value address with
  | .error fault => calls = before ∧ ending = .raised fault
  | .ok .absent => calls = before ∧ ending = .returned (some address)
  | .ok .derived => calls = before ∧ ending = .returned (some (Name.toDeclaration address))
  | .ok (.explicit path) => calls = before ++ [.address (declared path) origin] ∧
    ending = (answers.found origin (declared path)).map fun found =>
      some (if found = "" then address else found)

/-- What an import asks: for its own address first, and for more only if that is a script. Then a
typings package supersedes the script if the options list the import; if they do not, the typings
of its package may, which are configured or else looked up once, for that script. -/
structure ImportCalls : Prop where
  spelled : importSpecifier origin text = text ∨ importSpecifier origin text = text ++ ".d.ts"
  declaration : Name.isDeclaration origin = true → Name.isRelative text = true →
    Name.isDeclaration (importSpecifier origin text) = true
  unanswered : ∀ failure,
    (answers.found origin (importSpecifier origin text)).failure? = some failure →
      calls = [.address (importSpecifier origin text) origin] ∧ ending.failure? = some failure
  checkable : ∀ address, answers.found origin (importSpecifier origin text) = .returned address →
    Name.isScript address = false →
      calls = [.address (importSpecifier origin text) origin] ∧ ending = .returned (some address)
  listed : ∀ address, StandsFor answers origin text address → text ∈ options.types →
    calls = [.address (importSpecifier origin text) origin, .address ("@types/" ++ text) origin] ∧
      ending = (answers.found origin ("@types/" ++ text)).map fun found =>
        some (declarationIn found)
  overridden : ∀ address given, StandsFor answers origin text address → text ∉ options.types →
    options.typingsFor (Name.package text) = some given → given.truthy = true →
      Discovers answers origin text calls ending address
        (if text = Name.package text then given else .bool true)
        [.address (importSpecifier origin text) origin]
  undescribed : ∀ address failure, StandsFor answers origin text address → text ∉ options.types →
    Unconfigured options text →
    (answers.described origin address text).failure? = some failure →
      calls = [.address (importSpecifier origin text) origin, .descriptor address] ∧
        ending.failure? = some failure
  described : ∀ address d, StandsFor answers origin text address → text ∉ options.types →
    Unconfigured options text → answers.described origin address text = .returned d →
      Discovers answers origin text calls ending address d.typings
        [.address (importSpecifier origin text) origin, .descriptor address]

/-- Descriptors are looked up at most once: for the script that an import stands for, if the
options neither list the import nor configure typings for its package. -/
def LooksUpOnce : Prop :=
  ∀ address, .descriptor address ∈ calls →
    calls.filter Call.isLookup = [.descriptor address] ∧
      StandsFor answers origin text address ∧ text ∉ options.types ∧ Unconfigured options text

end Kinds

/-! ## What each policy asks -/

section Policies

variable (options : Options) (answers : Answers) (origin text address : String)

theorem calls_typesPackage_unlisted (unlisted : text ∉ options.types) :
    answers.calls origin (typesPackage options text) = [] ∧
      answers.evaluate origin (typesPackage options text) = .returned none := by
  rw [typesPackage, if_neg (by simpa using unlisted)]
  exact ⟨rfl, rfl⟩

theorem calls_typesPackage_listed (listed : text ∈ options.types) :
    answers.calls origin (typesPackage options text) = [.address ("@types/" ++ text) origin] ∧
      answers.evaluate origin (typesPackage options text) =
        (answers.found origin ("@types/" ++ text)).map fun found => some (declarationIn found) := by
  rw [typesPackage, if_pos (by simpa using listed)]
  constructor
  · refine (answers.calls_bind origin (Inquiry.askAddress _) _).trans ?_
    rw [Answers.calls_askAddress]
    cases answers.evaluate origin (Inquiry.askAddress ("@types/" ++ text)) <;> rfl
  · refine (answers.evaluate_bind origin (Inquiry.askAddress _) _).trans ?_
    rw [Answers.found]
    cases answers.evaluate origin (Inquiry.askAddress ("@types/" ++ text)) <;> rfl

theorem override_eq_none : override options text = none ↔ Unconfigured options text := by
  cases configured : options.typingsFor (Name.package text) with
  | none => simp [override, Unconfigured, configured]
  | some given => cases truthy : given.truthy <;> simp [override, Unconfigured, configured, truthy]

/-- Configured typings are meant for the package as a whole; what is within it is next to them. -/
theorem override_of_given {given : Value}
    (configured : options.typingsFor (Name.package text) = some given)
    (truthy : given.truthy = true) :
    override options text = some (if text = Name.package text then given else .bool true) := by
  simp only [override, configured, truthy, if_true]

/-- What may supersede the script at an address that an import stands for. -/
def superseding (options : Options) (text address : String) : Inquiry String :=
  (typesPackage options text).bind fun declaration =>
    match given? declaration with
    | some found => .answer found
    | none => (packageTypings options text address).bind fun typings =>
      .answer ((given? typings).getD address)

theorem importTarget_eq : importTarget options origin text =
    (Inquiry.askAddress (importSpecifier origin text)).bind fun address =>
      if Name.isScript address then superseding options text address else .answer address := by
  refine congrArg (Inquiry.askAddress (importSpecifier origin text)).bind (funext fun address => ?_)
  split
  · refine congrArg (typesPackage options text).bind (funext fun declaration => ?_)
    cases given? declaration with
    | some found => rfl
    | none =>
      refine congrArg (packageTypings options text address).bind (funext fun typings => ?_)
      cases given? typings <;> rfl
  · rfl

/-- A typings package supersedes the script, without a look at the package's own typings. -/
theorem calls_superseding_listed (listed : text ∈ options.types) :
    answers.calls origin (superseding options text address) =
        [.address ("@types/" ++ text) origin] ∧
      answers.evaluate origin (superseding options text address) =
        (answers.found origin ("@types/" ++ text)).map declarationIn := by
  obtain ⟨calls, ending⟩ := calls_typesPackage_listed options answers origin text listed
  rw [superseding, Answers.calls_bind, Answers.evaluate_bind, calls, ending]
  cases answers.found origin ("@types/" ++ text) with
  | returned found =>
    simp only [Ending.map, given?_declarationIn]
    exact ⟨rfl, rfl⟩
  | raised fault => exact ⟨rfl, rfl⟩
  | cancelled => exact ⟨rfl, rfl⟩

theorem calls_superseding_unlisted (unlisted : text ∉ options.types) :
    answers.calls origin (superseding options text address) =
        answers.calls origin (packageTypings options text address) ∧
      answers.evaluate origin (superseding options text address) =
        (answers.evaluate origin (packageTypings options text address)).map fun typings =>
          (given? typings).getD address := by
  obtain ⟨calls, ending⟩ := calls_typesPackage_unlisted options answers origin text unlisted
  rw [superseding, Answers.calls_bind, Answers.evaluate_bind, calls, ending]
  exact ⟨Answers.calls_map answers origin _ _, Answers.evaluate_map answers origin _ _⟩

theorem getD_given? (found : String) :
    (given? (some found)).getD address = if found = "" then address else found := by
  by_cases empty : found = ""
  · simp [given?, Option.filter_some, empty]
  · simp [given?, Option.filter_some, empty]

/-- Once the value of its typings is known, a package is asked for at most one path. -/
theorem discovers_typings (value : Value) (before : List Call)
    (script : Name.isScript address = true) :
    let typings := (Inquiry.ofExcept (Typings.parse value address)).bind
      (typingsAddress text address)
    Discovers answers origin text (before ++ answers.calls origin typings)
      ((answers.evaluate origin typings).map fun typings => some ((given? typings).getD address))
      address value before := by
  intro typings
  simp only [Discovers, typings]
  cases Typings.parse value address with
  | error fault => exact ⟨List.append_nil _, rfl⟩
  | ok parsed =>
    cases parsed with
    | absent => exact ⟨List.append_nil _, rfl⟩
    | derived =>
      refine ⟨List.append_nil _, ?_⟩
      simp only [Inquiry.ofExcept, Inquiry.bind, typingsAddress, Inquiry.pure_eq, Answers.evaluate,
        Ending.map, getD_given?, if_neg (Name.toDeclaration_ne_empty script)]
    | explicit path =>
      have typings_eq : (Inquiry.ofExcept (.ok (Typings.explicit path))).bind
          (typingsAddress text address) =
            (Inquiry.askAddress (Name.package text ++ "/" ++ Name.withoutRelativeMarker path)).bind
              fun found => .answer (some found) := rfl
      dsimp only
      rw [typings_eq, Answers.calls_map, Answers.evaluate_map, Answers.calls_askAddress,
        Answers.found]
      refine ⟨rfl, ?_⟩
      cases answers.evaluate origin (Inquiry.askAddress _) with
      | returned found => simp only [Ending.map, getD_given?]
      | raised fault => rfl
      | cancelled => rfl

theorem packageTypings_eq : packageTypings options text address =
    (typingsValue options text address).bind fun value =>
      (Inquiry.ofExcept (Typings.parse value address)).bind (typingsAddress text address) := rfl

/-- Configured typings are not looked up. -/
theorem calls_typingsValue_overridden {value : Value} (h : override options text = some value) :
    answers.calls origin (typingsValue options text address) = [] ∧
      answers.evaluate origin (typingsValue options text address) = .returned value := by
  rw [typingsValue, h]
  exact ⟨rfl, rfl⟩

/-- Typings that are not configured are looked up once. -/
theorem calls_typingsValue_described (h : override options text = none) :
    answers.calls origin (typingsValue options text address) = [.descriptor address] ∧
      answers.evaluate origin (typingsValue options text address) =
        (answers.described origin address text).map Descriptor.typings := by
  have asked : typingsValue options text address =
      (Inquiry.askDescriptor address text).bind fun d => .answer d.typings := by
    rw [typingsValue, h]
    rfl
  rw [asked, Answers.calls_map, Answers.evaluate_map, Answers.calls_askDescriptor]
  exact ⟨rfl, rfl⟩

/-- The typings of a package are found from their value, wherever that comes from. -/
theorem discovers_packageTypings {value : Value} {more : List Call}
    (script : Name.isScript address = true)
    (calls : answers.calls origin (typingsValue options text address) = more)
    (ending : answers.evaluate origin (typingsValue options text address) = .returned value)
    (before : List Call) :
    Discovers answers origin text
      (before ++ answers.calls origin (packageTypings options text address))
      ((answers.evaluate origin (packageTypings options text address)).map fun typings =>
        some ((given? typings).getD address)) address value (before ++ more) := by
  have discovers := discovers_typings answers origin text address value (before ++ more) script
  rw [packageTypings_eq, Answers.calls_bind, Answers.evaluate_bind, calls, ending,
    ← List.append_assoc]
  exact discovers

/-- An import asks for its own address, and for more only if that is a script. -/
theorem calls_importTarget :
    answers.calls origin (importTarget options origin text) =
        .address (importSpecifier origin text) origin ::
          (match answers.found origin (importSpecifier origin text) with
          | .returned address => if Name.isScript address then
              answers.calls origin (superseding options text address) else []
          | _ => []) ∧
      answers.evaluate origin (importTarget options origin text) =
        match answers.found origin (importSpecifier origin text) with
        | .returned address => if Name.isScript address then
            answers.evaluate origin (superseding options text address) else .returned address
        | .raised fault => .raised fault
        | .cancelled => .cancelled := by
  rw [importTarget_eq, Answers.calls_bind, Answers.evaluate_bind, Answers.calls_askAddress,
    ← Answers.found]
  cases answers.found origin (importSpecifier origin text) with
  | returned address =>
    dsimp only
    split <;> exact ⟨rfl, rfl⟩
  | raised fault => exact ⟨rfl, rfl⟩
  | cancelled => exact ⟨rfl, rfl⟩

/-- An import of a script asks what may supersede it. -/
theorem calls_importTarget_script (h : StandsFor answers origin text address) :
    answers.calls origin (importTarget options origin text) =
        .address (importSpecifier origin text) origin ::
          answers.calls origin (superseding options text address) ∧
      answers.evaluate origin (importTarget options origin text) =
        answers.evaluate origin (superseding options text address) := by
  obtain ⟨calls, ending⟩ := calls_importTarget options answers origin text
  rw [calls, ending, h.found]
  exact ⟨congrArg (_ :: ·) (if_pos h.script), if_pos h.script⟩

theorem importCalls_importTarget :
    ImportCalls options answers origin text
      (answers.calls origin (importTarget options origin text))
      ((answers.evaluate origin (importTarget options origin text)).map some) := by
  obtain ⟨spelled, declaration⟩ := importSpecifier_spec origin text
  obtain ⟨calls, ending⟩ := calls_importTarget options answers origin text
  refine ⟨spelled, declaration, ?_, ?_, ?_, ?_, ?_, ?_⟩
  · intro failure fails
    rw [calls, ending]
    cases asked : answers.found origin (importSpecifier origin text) with
    | returned address =>
      rw [asked] at fails
      cases fails
    | raised fault => exact ⟨rfl, by rw [← fails, asked]; rfl⟩
    | cancelled => exact ⟨rfl, by rw [← fails, asked]; rfl⟩
  · intro address found checkable
    simp [calls, ending, found, checkable, Ending.map]
  · intro address script listed
    obtain ⟨calls, ending⟩ := calls_importTarget_script options answers origin text address script
    obtain ⟨more, declared⟩ := calls_superseding_listed options answers origin text address listed
    rw [calls, ending, more, declared, Ending.map_map]
    exact ⟨rfl, rfl⟩
  · intro address given script unlisted configured truthy
    obtain ⟨calls, ending⟩ := calls_importTarget_script options answers origin text address script
    obtain ⟨more, typings⟩ :=
      calls_superseding_unlisted options answers origin text address unlisted
    obtain ⟨none, read⟩ := calls_typingsValue_overridden options answers origin text address
      (override_of_given options text configured truthy)
    rw [calls, ending, more, typings, Ending.map_map]
    exact discovers_packageTypings options answers origin text address script.script none read
      [.address (importSpecifier origin text) origin]
  · intro address failure script unlisted unconfigured fails
    obtain ⟨calls, ending⟩ := calls_importTarget_script options answers origin text address script
    obtain ⟨more, typings⟩ :=
      calls_superseding_unlisted options answers origin text address unlisted
    obtain ⟨one, read⟩ := calls_typingsValue_described options answers origin text address
      ((override_eq_none options text).2 unconfigured)
    rw [calls, ending, more, typings, Ending.failure?_map, Ending.failure?_map, packageTypings_eq,
      Answers.calls_bind, Answers.evaluate_bind, one, read]
    cases asked : answers.described origin address text with
    | returned d =>
      rw [asked] at fails
      cases fails
    | raised fault => exact ⟨rfl, by rw [← fails, asked]; rfl⟩
    | cancelled => exact ⟨rfl, by rw [← fails, asked]; rfl⟩
  · intro address d script unlisted unconfigured asked
    obtain ⟨calls, ending⟩ := calls_importTarget_script options answers origin text address script
    obtain ⟨more, typings⟩ :=
      calls_superseding_unlisted options answers origin text address unlisted
    obtain ⟨one, read⟩ := calls_typingsValue_described options answers origin text address
      ((override_eq_none options text).2 unconfigured)
    rw [asked] at read
    rw [calls, ending, more, typings, Ending.map_map]
    exact discovers_packageTypings options answers origin text address script.script one read
      [.address (importSpecifier origin text) origin]

variable {options answers origin text} {calls : List Call} {ending : Ending Fault (Option String)}
  {address : String}

/-- Finding typings from their value looks up nothing more. -/
theorem Discovers.lookups {value : Value} {before : List Call}
    (h : Discovers answers origin text calls ending address value before) :
    calls.filter Call.isLookup = before.filter Call.isLookup := by
  unfold Discovers at h
  dsimp only at h
  split at h
  · rw [h.1]
  · rw [h.1]
  · rw [h.1]
  · rw [h.1, List.filter_append]
    exact List.append_nil _

/-- An import looks up nothing, or the descriptor of its package. -/
theorem ImportCalls.lookups (h : ImportCalls options answers origin text calls ending) :
    calls.filter Call.isLookup = [] ∨
      ∃ address, calls.filter Call.isLookup = [.descriptor address] ∧
        StandsFor answers origin text address ∧ text ∉ options.types ∧
          Unconfigured options text := by
  cases asked : answers.found origin (importSpecifier origin text) with
  | raised fault =>
    rw [(h.unanswered (.raised fault) (by rw [asked]; rfl)).1]
    exact .inl rfl
  | cancelled =>
    rw [(h.unanswered .cancelled (by rw [asked]; rfl)).1]
    exact .inl rfl
  | returned address =>
    cases isScript : Name.isScript address with
    | false =>
      rw [(h.checkable address asked isScript).1]
      exact .inl rfl
    | true =>
      have script : StandsFor answers origin text address := ⟨asked, isScript⟩
      by_cases listed : text ∈ options.types
      · rw [(h.listed address script listed).1]
        exact .inl rfl
      · by_cases unconfigured : Unconfigured options text
        · refine .inr ⟨address, ?_, script, listed, unconfigured⟩
          cases answer : answers.described origin address text with
          | returned d =>
            rw [(h.described address d script listed unconfigured answer).lookups]
            rfl
          | raised fault =>
            rw [(h.undescribed address (.raised fault) script listed unconfigured
              (by rw [answer]; rfl)).1]
            rfl
          | cancelled =>
            rw [(h.undescribed address .cancelled script listed unconfigured
              (by rw [answer]; rfl)).1]
            rfl
        · obtain ⟨given, configured, truthy⟩ :
              ∃ given, options.typingsFor (Name.package text) = some given ∧
                given.truthy = true := by
            simpa [Unconfigured] using unconfigured
          rw [(h.overridden address given script listed configured truthy).lookups]
          exact .inl rfl

theorem ImportCalls.looksUpOnce (h : ImportCalls options answers origin text calls ending) :
    LooksUpOnce options answers origin text calls := by
  intro address asked
  have lookup : .descriptor address ∈ calls.filter Call.isLookup :=
    List.mem_filter.2 ⟨asked, rfl⟩
  obtain none | ⟨found, once, script, unlisted, unconfigured⟩ := h.lookups
  · rw [none] at lookup
    cases lookup
  · rw [once, List.mem_singleton] at lookup
    cases lookup
    exact ⟨once, script, unlisted, unconfigured⟩

end Policies

/-- **Every specifier asks what its kind asks**, and no more, whatever the options, the text, the
answers and the gates that these wait for. -/
theorem calls_inquiry (options : Options) (fixed : env.Gives answers) (id : FileId) (i : Nat)
    (o : Occurrence) :
    let work := (Policy.inquiry options id.name o).script env id i 0
    let calls := callsOf work.events
    match o.kind with
    | .fileReference => ReferenceCalls options answers id.name o.text calls work.ending
    | .typeReference => TypeReferenceCalls options answers id.name o.text calls work.ending
    | .importSpecifier | .ambientModule =>
      ImportCalls options answers id.name o.text calls work.ending ∧
        LooksUpOnce options answers id.name o.text calls := by
  intro work calls
  have calls_eq : calls = answers.calls id.name (Policy.inquiry options id.name o) :=
    callsOf_script fixed id i 0 _
  have ending_eq : work.ending = answers.evaluate id.name (Policy.inquiry options id.name o) :=
    ending_script fixed id i 0 _
  rw [calls_eq, ending_eq, Policy.inquiry]
  have imports : ImportCalls options answers id.name o.text
      (answers.calls id.name ((importTarget options id.name o.text).bind fun a => .answer (some a)))
      (answers.evaluate id.name
        ((importTarget options id.name o.text).bind fun a => .answer (some a))) := by
    rw [Answers.calls_map, Answers.evaluate_map]
    exact importCalls_importTarget options answers id.name o.text
  cases o.kind with
  | fileReference =>
    obtain ⟨spelled, slash, ambient⟩ := referenceSpecifier_spec options o.text
    exact ⟨(Answers.calls_map answers id.name _ _).trans (Answers.calls_askAddress answers _ _),
      Answers.evaluate_map answers id.name _ _, spelled, slash, ambient⟩
  | typeReference =>
    exact ⟨calls_typesPackage_unlisted options answers id.name o.text,
      calls_typesPackage_listed options answers id.name o.text⟩
  | importSpecifier => exact ⟨imports, imports.looksUpOnce⟩
  | ambientModule => exact ⟨imports, imports.looksUpOnce⟩

/-- Every specifier stands for a script, and every package says that its typings are at `t.d.ts`. -/
def scriptsWithTypings : Answers where
  address specifier _ := .returned (specifier ++ ".js")
  descriptor _ := .returned ⟨[(.text "typings", .text "./t.d.ts")]⟩

/-- An import of a package that is neither listed nor configured makes all the calls that there
are: for the import, for the descriptor, and for the path that it gives. -/
theorem calls_inquiry_discovery :
    callsOf ((Policy.inquiry {} "main.ts" ⟨.importSpecifier, "lib/sub"⟩).script
        (scriptsWithTypings.behind ["g"]) ⟨"main.ts", 0⟩ 0 0).events =
      [.address "lib/sub" "main.ts", .descriptor "lib/sub.js", .address "lib/t.d.ts" "main.ts"] := by
  obtain ⟨imports, -⟩ := calls_inquiry {} (scriptsWithTypings.behind_gives ["g"]) ⟨"main.ts", 0⟩ 0
    ⟨.importSpecifier, "lib/sub"⟩
  exact (imports.described "lib/sub.js" ⟨[(.text "typings", .text "./t.d.ts")]⟩
    ⟨by decide, by decide⟩ (by decide) (fun _ given => by cases given) (by decide)).1

end Policy

/-! ## Runs -/

section Runs

variable {id : FileId} {i stage : Nat} {q : Inquiry α} {events : List Event}

theorem callsOf_append (events later : List Event) :
    callsOf (events ++ later) = callsOf events ++ callsOf later :=
  List.filterMap_append

theorem callsOf_of_reaches {s rest : Script Event Fault α} (h : s.Reaches events rest) :
    callsOf events <+: callsOf s.events := by
  rw [h.events_eq, callsOf_append]
  exact List.prefix_append _ _

/-- Whoever works on an inquiry has made its first calls, and all of them if it has returned. -/
theorem Member.Passed.calls {loop : Loop JoinJob} {m : Member Event Fault α}
    (h : m.Passed loop i (q.script env id i stage) events) :
    callsOf events <+: callsOf (q.script env id i stage).events ∧
      ∀ a, m = .ended (.returned a) →
        callsOf events = callsOf (q.script env id i stage).events := by
  have halted : ∀ before farewell,
      (q.script env id i stage).Halts loop.isOpen before farewell →
        callsOf (before ++ farewell) <+: callsOf (q.script env id i stage).events := by
    intro before farewell halts
    have silent : callsOf farewell = [] := by
      refine List.filterMap_eq_nil_iff.2 fun e he => ?_
      cases e with
      | called caller call => exact absurd he (Inquiry.called_notMem_farewell env id i halts _ _)
      | _ => rfl
    rw [callsOf_append, silent, List.append_nil]
    obtain ⟨rfl, -⟩ | ⟨gate, rest, passes⟩ := halts
    · exact List.nil_prefix
    · exact callsOf_of_reaches passes.reaches
  cases m with
  | active farewell rest =>
    refine ⟨?_, fun a h => by cases h⟩
    obtain ⟨rfl, -, -⟩ | ⟨gate, passes, -⟩ := h
    · exact List.nil_prefix
    · exact callsOf_of_reaches passes.reaches
  | stopped farewell =>
    refine ⟨?_, fun a h => by cases h⟩
    obtain ⟨rfl, -⟩ | ⟨gate, rest, passes⟩ := h
    · exact List.nil_prefix
    · exact callsOf_of_reaches passes.reaches
  | ended e =>
    obtain passes | ⟨rfl, before, farewell, rfl, halts⟩ := h
    · refine ⟨callsOf_of_reaches passes.reaches, fun a _ => ?_⟩
      rw [passes.reaches.events_eq, Script.events, List.append_nil]
    · exact ⟨halted before farewell halts, fun a h => by cases h⟩

/-- The calls among the events of an inquiry are its own. -/
theorem callsOf_filter_isBy {m : Member Event Fault α}
    (h : m.Follows (q.script env id i stage) events) :
    callsOf (events.filter (Event.isBy id i)) = callsOf events := by
  have own : ∀ e ∈ events, e.call? ≠ none → e.isBy id i = true := by
    refine h.logs (q.script_logs env id i (fun n isCall => absurd rfl isCall) ?_ ?_ stage)
    · exact fun stage call _ => by simp [Event.isBy]
    · exact fun stage call isCall => absurd rfl isCall
  rw [callsOf, List.filterMap_filter]
  refine List.filterMap_congr fun e he => ?_
  split
  · rfl
  · next foreign =>
      by_contra isCall
      exact foreign (own e he fun none => isCall none.symm)

end Runs

namespace World

variable {envs : Nat → Environment}

/-- **In every run** what was called for an occurrence are the first calls of its inquiry, and all
of them once the resolution of the file is done. -/
theorem calls_run (options : Options) (libName : String) (registries : Nat → Registry)
    (actions : List Action) {id : FileId} {r : Record} {work : Work} {i : Nat} {o : Occurrence}
    (hr : ((initial options libName registries).run envs actions).store.record? id = some r)
    (hwork : r.work = some work) (ho : work.occurrences[i]? = some o) :
    let log := ((initial options libName registries).run envs actions).log
    let script := (Policy.inquiry options id.name o).script (envs work.resolver) id i 0
    callsOf (log.filter (Event.isBy id i)) <+: callsOf script.events ∧
      (r.cell.state = .done →
        callsOf (log.filter (Event.isBy id i)) = callsOf script.events) := by
  intro log script
  have hl := lane?_of_record? hr
  rcases heeded_run options libName registries actions hl with
    idle | ⟨resolver, occurrences, started, join, events, hwork', passing, recorded, -⟩
  · rw [idle.work] at hwork
    cases hwork
  · obtain rfl := Option.some.inj (hwork.symm.trans hwork')
    have hs : (scriptsOf (envs resolver) options id occurrences)[i]? = some script := by
      rw [getElem?_scriptsOf, ho]
      rfl
    obtain ⟨m, hm, passed⟩ := passing.each i script hs
    have logged : callsOf (log.filter (Event.isBy id i)) = callsOf (events i) := by
      rw [← Event.filter_isBy, recorded i, callsOf_filter_isBy passed.follows]
    rw [logged]
    refine ⟨passed.calls.1, fun done => ?_⟩
    rcases started with underway | ⟨ending, closed⟩
    · have stage : r.cell.stage = .inProgress := underway.stage
      simp [Cell.state, stage] at done
    · -- a file that is done has returned, and so have all of its specifiers
      obtain ⟨join', events', verdict, registry, hwork', hover, -, yields, rfl⟩ := closed.finished
      cases hwork.symm.trans hwork'
      have stage : r.cell.stage = .ended (Lane.outcomeOf id.name occurrences registry verdict) :=
        closed.stage
      cases verdict with
      | returned addresses =>
        obtain ⟨address, -, returned, -⟩ := (Lane.returns_each hover yields).2 i o ho
        exact passed.calls.2 address (Option.some.inj (hm.symm.trans returned))
      | raised fault => simp [Cell.state, stage, Lane.outcomeOf] at done
      | cancelled => simp [Cell.state, stage, Lane.outcomeOf] at done

end World

end DepGraph
