import DepGraph.Proofs.Calls

/-!
# Typings from the options and from descriptors

The typings of a package may be configured, or its descriptor gives them. Both are read in the same
way. Configured typings come first, and no descriptor is looked up where they count as given.

* `Policy.importTarget_congr` — what an import asks depends on the options only by whether they list
  it and by the typings that they give for its package;
* `Policy.Discovers.ending_eq` — the value of the typings determines what an import comes to;
* `Policy.configured_as_described` — **a configured value means what the same value means in a
  descriptor**, unless it is the empty path.
-/

set_option autoImplicit false

namespace DepGraph

namespace Typings

/-- A value that says something about typings counts as given, or it is the empty path. -/
theorem truthy_of_parse {value : Value} {address : String}
    (meant : parse value address ≠ .ok .absent) (path : value ≠ .text "") :
    value.truthy = true := by
  by_contra missing
  refine meant ?_
  unfold parse
  split
  · exact absurd rfl missing
  · next text =>
      have empty : text = "" := by simpa [Value.truthy, Scalar.truthy] using missing
      exact absurd (congrArg Value.text empty) path
  · exact if_neg missing

end Typings

namespace Policy

variable {options options' : Options} {answers answers' : Answers} {origin text address : String}
  {value : Value} {before before' calls calls' : List Call}
  {ending ending' : Ending Fault (Option String)}

/-! ## What depends on the options -/

theorem typesPackage_congr (listed : text ∈ options.types ↔ text ∈ options'.types) :
    typesPackage options text = typesPackage options' text := by
  simp only [typesPackage, List.contains_iff_mem, listed]

theorem packageTypings_congr (overridden : override options text = override options' text) :
    packageTypings options text address = packageTypings options' text address := by
  simp only [packageTypings, typingsValue, overridden]

/-- What an import asks depends on whether it is listed, and on the typings that are configured for
its package and count as given. -/
theorem importTarget_congr (listed : text ∈ options.types ↔ text ∈ options'.types)
    (overridden : override options text = override options' text) :
    importTarget options origin text = importTarget options' origin text := by
  simp only [importTarget, typesPackage_congr listed, packageTypings_congr overridden]

/-- Typings that do not count as given are as good as none. -/
theorem override_of_falsy (configured : options.typingsFor (Name.package text) = some value)
    (falsy : value.truthy = false) : override options text = none := by
  rw [override_eq_none]
  intro given h
  rw [configured] at h
  cases h
  exact falsy

/-! ## What depends on the value -/

/-- The value of the typings determines what an import comes to, wherever it was found. -/
theorem Discovers.ending_eq (h : Discovers answers origin text calls ending address value before)
    (h' : Discovers answers' origin text calls' ending' address value before')
    (same : ∀ specifier, answers.found origin specifier = answers'.found origin specifier) :
    ending = ending' := by
  unfold Discovers at h h'
  dsimp only at h h'
  cases parsed : Typings.parse value address with
  | error fault =>
    rw [parsed] at h h'
    exact h.2.trans h'.2.symm
  | ok typings =>
    rw [parsed] at h h'
    cases typings with
    | absent => exact h.2.trans h'.2.symm
    | derived => exact h.2.trans h'.2.symm
    | explicit path => rw [h.2, h'.2, same]

/-- Addresses are found alike where they are answered alike. -/
theorem found_congr {specifier : String}
    (same : answers.address specifier origin = answers'.address specifier origin) :
    answers.found origin specifier = answers'.found origin specifier := by
  simp only [Answers.found, Inquiry.askAddress, Answers.evaluate, same]

/-- The work on an import of either kind asks what an import asks. -/
theorem importCalls_script {env : Environment} (fixed : env.Gives answers) (options : Options)
    (id : FileId) (i : Nat) (text : String) {kind : SpecifierKind}
    (imports : kind = .importSpecifier ∨ kind = .ambientModule) :
    let work := (inquiry options id.name ⟨kind, text⟩).script env id i 0
    ImportCalls options answers id.name text (callsOf work.events) work.ending := by
  intro work
  have target : inquiry options id.name ⟨kind, text⟩ =
      (importTarget options id.name text).bind fun a => .answer (some a) := by
    rcases imports with rfl | rfl <;> rfl
  have asked := importCalls_importTarget options answers id.name text
  rw [← Answers.calls_map answers id.name _ some, ← Answers.evaluate_map, ← target,
    ← callsOf_script fixed id i 0, ← ending_script fixed id i 0] at asked
  exact asked

/-! ## The two places of typings -/

/-- **A configured value means what the same value means in a descriptor**: an import of the package
comes to the same address or fault, and asks for no descriptor, whatever that would be. This holds of
every value that says something about typings but the empty path: configured, that one counts as not
given, and the import asks what it would ask without it. -/
theorem configured_as_described {env env' : Environment} {bare : Options} {d : Descriptor}
    {id : FileId} {package : String} {kind : SpecifierKind}
    (imports : kind = .importSpecifier ∨ kind = .ambientModule)
    (own : Name.package package = package)
    (unlisted : package ∉ options.types) (configured : options.typingsFor package = some value)
    (unlisted' : package ∉ bare.types) (unconfigured : bare.typingsFor package = none)
    (fixed : env.Gives answers) (fixed' : env'.Gives answers')
    (same : ∀ specifier, answers.address specifier id.name = answers'.address specifier id.name)
    (script : StandsFor answers id.name package address)
    (described : answers'.descriptor address = .returned d) (reported : d.typings = value)
    (meant : Typings.parse value address ≠ .ok .absent) (i i' : Nat) :
    let work := (inquiry options id.name ⟨kind, package⟩).script env id i 0
    let work' := (inquiry bare id.name ⟨kind, package⟩).script env' id i' 0
    (value ≠ .text "" →
      work.ending = work'.ending ∧ ∀ a, .descriptor a ∉ callsOf work.events) ∧
    (value = .text "" →
      inquiry options id.name ⟨kind, package⟩ = inquiry bare id.name ⟨kind, package⟩) := by
  intro work work'
  have found : ∀ specifier, answers.found id.name specifier = answers'.found id.name specifier :=
    fun specifier => found_congr (same specifier)
  have bareOverride : override bare package = none := by
    rw [override_eq_none]
    intro given h
    rw [own, unconfigured] at h
    cases h
  refine ⟨fun path => ?_, fun path => ?_⟩
  · have truthy := Typings.truthy_of_parse meant path
    have asks := importCalls_script fixed options id i package imports
    have asks' := importCalls_script fixed' bare id i' package imports
    have script' : StandsFor answers' id.name package address :=
      ⟨(found _).symm.trans script.found, script.script⟩
    have lookup : answers'.described id.name address package = .returned d := by
      simp only [Answers.described, Inquiry.askDescriptor, Answers.evaluate, described]
    have discovers := asks.overridden address value script unlisted (by rwa [own]) truthy
    have discovers' := asks'.described address d script' unlisted'
      ((override_eq_none bare package).1 bareOverride) lookup
    rw [own, if_pos rfl] at discovers
    rw [reported] at discovers'
    refine ⟨discovers.ending_eq discovers' found, fun a asked => ?_⟩
    obtain ⟨-, -, -, without⟩ := asks.looksUpOnce a asked
    rw [without value (by rwa [own])] at truthy
    cases truthy
  · subst path
    have alike : importTarget options id.name package = importTarget bare id.name package :=
      importTarget_congr (iff_of_false unlisted unlisted')
        ((override_of_falsy (by rwa [own]) rfl).trans bareOverride.symm)
    rcases imports with rfl | rfl <;> simp only [inquiry, alike]

/-- Every specifier stands for a script, and every descriptor gives the same answer. -/
def scriptsDescribed (descriptor : Ending Cause Descriptor) : Answers where
  address specifier _ := .returned (specifier ++ ".js")
  descriptor _ := descriptor

/-- A descriptor that gives a value for the typings. -/
def describing (value : Value) : Ending Cause Descriptor :=
  .returned ⟨[(.text "typings", value)]⟩

/-- A path is configured, and no descriptor can be read: the import comes to what it comes to where
the descriptor gives that path. -/
theorem configured_as_described_unread :
    let answers := scriptsDescribed (.raised ⟨"OSError", "unreachable"⟩)
    let answers' := scriptsDescribed (describing (.text "./t.d.ts"))
    let options : Options := { typings := [("lib", .text "./t.d.ts")] }
    let id : FileId := ⟨"main.ts", 0⟩
    let work := (inquiry options id.name ⟨.importSpecifier, "lib"⟩).script (answers.behind ["g"]) id
      3 0
    let work' := (inquiry {} id.name ⟨.importSpecifier, "lib"⟩).script (answers'.behind []) id 0 0
    work.ending = work'.ending ∧ ∀ a, .descriptor a ∉ callsOf work.events := by
  intro answers answers' options id work work'
  have own : Name.package "lib" = "lib" := by decide
  have script : StandsFor answers id.name "lib" "lib.js" := ⟨by decide, by decide⟩
  have configured : options.typingsFor "lib" = some (.text "./t.d.ts") := rfl
  have meant : Typings.parse (.text "./t.d.ts") "lib.js" ≠ .ok .absent := by decide
  have unlisted : "lib" ∉ options.types := List.not_mem_nil
  have unlisted' : "lib" ∉ ({} : Options).types := List.not_mem_nil
  obtain ⟨path, -⟩ := configured_as_described (.inl rfl) own unlisted configured unlisted' rfl
    (answers.behind_gives ["g"]) (answers'.behind_gives []) (fun _ => rfl) script rfl rfl meant 3 0
  exact path (by decide)

/-- **The empty path says where typings are**, but it is not heeded in the options: the descriptor
is looked up, and the import comes to what that says instead. -/
theorem empty_path_unheeded :
    let answers := scriptsDescribed (describing (.bool true))
    let answers' := scriptsDescribed (describing (.text ""))
    let options : Options := { typings := [("lib", .text "")] }
    let work := (inquiry options "main.ts" ⟨.importSpecifier, "lib"⟩).script (answers.behind [])
      ⟨"main.ts", 0⟩ 0 0
    let work' := (inquiry {} "main.ts" ⟨.importSpecifier, "lib"⟩).script (answers'.behind [])
      ⟨"main.ts", 0⟩ 0 0
    Name.package "lib" = "lib" ∧ StandsFor answers "main.ts" "lib" "lib.js" ∧
      Typings.parse (.text "") "lib.js" = .ok (.explicit "") ∧
      work.ending = .returned (some "lib.d.ts") ∧ work'.ending = .returned (some "lib/.js") ∧
      .descriptor "lib.js" ∈ callsOf work.events := by
  refine ⟨by decide, ⟨by decide, by decide⟩, rfl, by decide, by decide, by decide⟩

end Policy

end DepGraph
