import DepGraph.Proofs.Calls
import DepGraph.Proofs.Registrations

/-!
# Declarations that supersede scripts

Two ways lead from a script to a declaration by changing the end of a name: an address among the
typings packages, and the file next to the script. What they lead to ends as a declaration does,
whatever the address looks like, so that it is never dropped from the list of a file.

* `Policy.isDeclaration_declarationIn` — what is found among the typings packages is a declaration,
  as `Name.isDeclaration_toDeclaration` says it of what stands next to a script;
* `Policy.LooksUpTypes`, `Policy.evaluate_of_looksUpTypes`, `Policy.evaluate_of_reads` — the
  occurrences that take one of them, and what they come to;
* `World.superseding_listed` — **what supersedes a script is a declaration, and it is listed.**
-/

set_option autoImplicit false

namespace DepGraph

/-- Nothing is asked after the answer. -/
theorem Inquiry.bind_answer {α : Type} (q : Inquiry α) : q.bind .answer = q := by
  induction q with
  | answer a => rfl
  | fault f => rfl
  | address specifier next ih => exact congrArg _ (funext ih)
  | descriptor a specifier next ih => exact congrArg _ (funext ih)
  | note n next ih => exact congrArg _ ih

namespace Policy

open Inquiry

/-- **Whatever stands for an address among the typings packages is a declaration.** -/
theorem isDeclaration_declarationIn (address : String) :
    Name.isDeclaration (declarationIn address) = true := by
  unfold declarationIn
  generalize (if Name.isScript address then Name.withoutScriptSuffix address else address) = stem
  dsimp only
  split
  · assumption
  · rw [show "/index.d.ts" = "/index" ++ ".d.ts" from rfl, ← String.append_assoc]
    exact Name.isDeclaration_append _

/-! ## Occurrences that are superseded -/

variable (env : Environment) (options : Options) (id : FileId) (i : Nat) (o : Occurrence)

/-- Occurrence `i` of a file is looked up among the typings packages, after `stage` other calls:
its text is listed, and it is a type reference, or an import that stands for a script. -/
structure LooksUpTypes (stage : Nat) : Prop where
  listed : o.text ∈ options.types
  turn : o.kind = .typeReference ∧ stage = 0 ∨
    (o.kind = .importSpecifier ∨ o.kind = .ambientModule) ∧ stage = 1 ∧
      ∃ address, (env.address ⟨id, i, 0⟩ (importSpecifier id.name o.text) id.name).outcome =
        .returned address ∧ Name.isScript address = true

variable {env options id i o}

/-- An import that stands for a script comes to what supersedes the script. -/
theorem evaluate_import {address : String}
    (kind : o.kind = .importSpecifier ∨ o.kind = .ambientModule)
    (target : (env.address ⟨id, i, 0⟩ (importSpecifier id.name o.text) id.name).outcome =
      .returned address) (script : Name.isScript address = true) :
    ((Policy.inquiry options id.name o).evaluate env id i 0).2 =
      (((superseding options o.text address).bind fun a => .answer (some a)).evaluate env id i
        1).2 := by
  have inquiry_eq : Policy.inquiry options id.name o =
      (importTarget options id.name o.text).bind fun a => .answer (some a) := by
    unfold Policy.inquiry
    obtain kind | kind := kind <;> rw [kind] <;> rfl
  rw [inquiry_eq, importTarget_eq]
  simp only [askAddress, Inquiry.bind, Inquiry.evaluate, target, script, if_true]

/-- A lookup among the typings packages that leads to an address has been answered. -/
theorem evaluate_typesPackage {α : Type} {text : String} (listed : text ∈ options.types)
    {k : Option String → Inquiry α} {stage : Nat} {value : α}
    (returned : (((typesPackage options text).bind k).evaluate env id i stage).2 =
      .returned value) :
    ∃ found, (env.address ⟨id, i, stage⟩ ("@types/" ++ text) id.name).outcome = .returned found ∧
      ((k (some (declarationIn found))).evaluate env id i (stage + 1)).2 = .returned value := by
  simp only [typesPackage, List.contains_iff_mem, listed, if_true, bind_eq, pure_eq, askAddress,
    Inquiry.tell, Inquiry.bind, Inquiry.evaluate] at returned
  cases answer : (env.address ⟨id, i, stage⟩ ("@types/" ++ text) id.name).outcome with
  | returned found =>
    rw [answer] at returned
    exact ⟨found, rfl, returned⟩
  | raised cause =>
    rw [answer] at returned
    cases returned
  | cancelled =>
    rw [answer] at returned
    cases returned

/-- **What is looked up among the typings packages and gets an address** gets the declaration that
stands for what the lookup has returned. -/
theorem evaluate_of_looksUpTypes {stage : Nat} (h : LooksUpTypes env options id i o stage)
    {address : Option String}
    (returned : ((Policy.inquiry options id.name o).evaluate env id i 0).2 = .returned address) :
    ∃ found, (env.address ⟨id, i, stage⟩ ("@types/" ++ o.text) id.name).outcome =
      .returned found ∧ address = some (declarationIn found) := by
  obtain ⟨kind, rfl⟩ | ⟨kind, rfl, script, target, isScript⟩ := h.turn
  · have inquiry_eq : Policy.inquiry options id.name o =
        (typesPackage options o.text).bind .answer := by
      rw [Policy.inquiry, kind, bind_answer]
    rw [inquiry_eq] at returned
    obtain ⟨found, answer, value⟩ := evaluate_typesPackage h.listed returned
    cases value
    exact ⟨found, answer, rfl⟩
  · rw [evaluate_import kind target isScript, superseding, Inquiry.bind_assoc] at returned
    obtain ⟨found, answer, value⟩ := evaluate_typesPackage h.listed returned
    rw [given?_declarationIn] at value
    cases value
    exact ⟨found, answer, rfl⟩

/-- Whoever reads typings goes on with their value. -/
theorem Reads.evaluate (α : Type) {value : Value} {address : String}
    (h : Reads env options id i o value address) :
    ∃ stage, ∀ k : Value → Inquiry α,
      (((typingsValue options o.text address).bind k).evaluate env id i 1).2 =
        ((k value).evaluate env id i stage).2 := by
  obtain overridden | ⟨unconfigured, d, answer, rfl⟩ := h.value
  · refine ⟨1, fun k => ?_⟩
    rw [typingsValue, overridden]
    rfl
  · refine ⟨2, fun k => ?_⟩
    simp only [typingsValue, unconfigured, bind_eq, pure_eq, Inquiry.askDescriptor, Inquiry.bind,
      Inquiry.evaluate, answer]

/-- **What reads `true` as typings** gets the declaration next to its script. -/
theorem evaluate_of_reads {address : String} (h : Reads env options id i o (.bool true) address) :
    ((Policy.inquiry options id.name o).evaluate env id i 0).2 =
      .returned (some (Name.toDeclaration address)) := by
  have unlisted : typesPackage options o.text = .answer none := by
    simp only [typesPackage, h.types, Bool.false_eq_true, if_false, pure_eq]
  have named : given? (some (Name.toDeclaration address)) = some (Name.toDeclaration address) := by
    simp [given?, Name.toDeclaration_ne_empty h.script]
  have unnamed : given? none = none := rfl
  obtain ⟨stage, reads⟩ := h.evaluate (Option String)
  rw [evaluate_import h.kind h.target h.script, superseding, unlisted, packageTypings_eq]
  simp only [Inquiry.bind, unnamed, Inquiry.bind_assoc, reads]
  simp only [Typings.parse, Inquiry.ofExcept, typingsAddress, pure_eq, Inquiry.bind, named,
    Option.getD_some, Inquiry.evaluate]

end Policy

/-! ## Files that are done -/

/-- A checkable address that a text is mapped to is in the list. -/
theorem Dependencies.mem_list_build {file text address : String}
    {found : List (String × Option String)} {registry : Registry}
    (mapped : (build file found registry).mappings.lookup text = some (some address))
    (checkable : Name.isSource address = true) : address ∈ (build file found registry).list := by
  obtain ⟨before, after, split, -⟩ := List.lookup_eq_some_iff.1 mapped
  have there : some address ∈ (merge found).map (·.2) := by
    rw [show merge found = before ++ (text, some address) :: after from split]
    simp
  have direct : address ∈ direct (merge found) := by
    obtain ⟨p, hp, address_eq⟩ := List.mem_map.1 there
    exact mem_distinct.2 (List.mem_filter.2 ⟨List.mem_filterMap.2 ⟨p, hp, address_eq⟩, checkable⟩)
  exact List.mem_append_left _ direct

/-- Occurrence `i` of a file that is done gets a declaration, which is in the list of the file,
unless a later occurrence of the same text has given the text another address. -/
structure Dependencies.Lists (info : Dependencies) (env : Environment) (options : Options)
    (id : FileId) (occurrences : List Occurrence) (i : Nat) (o : Occurrence)
    (declaration : String) : Prop where
  address : ((Policy.inquiry options id.name o).script env id i 0).ending =
    .returned (some declaration)
  isDeclaration : Name.isDeclaration declaration = true
  notScript : Name.isScript declaration = false
  listed : info.mappings.lookup o.text = some (some declaration) ∧ declaration ∈ info.list ∨
    ∃ (j : Nat) (o' : Occurrence), i < j ∧ occurrences[j]? = some o' ∧ o'.text = o.text ∧
      info.mappings.lookup o.text ≠ some (some declaration)

/-- In a file that is done, whoever gets a declaration has it in the list. -/
theorem Lane.Closed.lists {env : Environment} {options : Options} {id : FileId} {resolver : Nat}
    {occurrences : List Occurrence} {info : Dependencies} {l : Lane}
    (h : Closed env options id resolver occurrences (.returned info) l) {i : Nat} {o : Occurrence}
    (ho : occurrences[i]? = some o) {declaration : String}
    (address : ((Policy.inquiry options id.name o).script env id i 0).ending =
      .returned (some declaration))
    (isDeclaration : Name.isDeclaration declaration = true) :
    info.Lists env options id occurrences i o declaration := by
  refine ⟨address, isDeclaration, Name.not_isScript_of_isDeclaration isDeclaration, ?_⟩
  by_cases mapped : info.mappings.lookup o.text = some (some declaration)
  · obtain ⟨join, events, verdict, registry, -, -, -, -, ending⟩ := h.finished
    obtain ⟨addresses, -, rfl⟩ := outcomeOf_eq_returned ending.symm
    exact .inl ⟨mapped, Dependencies.mem_list_build mapped
      (Name.isSource_of_isDeclaration isDeclaration)⟩
  · by_contra alone
    have last : ∀ (j : Nat) (o' : Occurrence), i < j → occurrences[j]? = some o' →
        o'.text ≠ o.text := by
      intro j o' later ho' same
      exact alone (.inr ⟨j, o', later, ho', same, mapped⟩)
    obtain ⟨address', ending, lookup⟩ := h.mappings.2 i o ho last
    rw [address] at ending
    cases ending
    exact mapped lookup

/-- **What supersedes a script is a declaration, and it is listed.** Whatever address is found among
the typings packages, and whatever the address of a script looks like, the declaration that stands
for the one and that next to the other end as declarations do. In a file that is done, every
occurrence that is looked up among the typings packages and every one that reads `true` as typings
has such a declaration for its address, and the file depends on it, unless a later occurrence of the
same text has given the text another address. -/
theorem World.superseding_listed :
    (∀ address, Name.isDeclaration (Policy.declarationIn address) = true ∧
      Name.isScript (Policy.declarationIn address) = false) ∧
    (∀ address, Name.isScript address = true →
      Name.isDeclaration (Name.toDeclaration address) = true ∧
        Name.isScript (Name.toDeclaration address) = false) ∧
    ∀ (env : Nat → Environment) (options : Options) (libName : String)
      (registries : Nat → Registry) (actions : List Action) (id : FileId) (r : Record)
      (info : Dependencies) (work : Work),
      ((initial options libName registries).run env actions).store.record? id = some r →
      r.cell.stage = .ended (.returned info) → r.work = some work →
      ∀ (i : Nat) (o : Occurrence), work.occurrences[i]? = some o →
        (∀ stage, Policy.LooksUpTypes (env work.resolver) options id i o stage →
          ∃ found, ((env work.resolver).address ⟨id, i, stage⟩ ("@types/" ++ o.text)
              id.name).outcome = .returned found ∧
            info.Lists (env work.resolver) options id work.occurrences i o
              (Policy.declarationIn found)) ∧
        ∀ address, Policy.Reads (env work.resolver) options id i o (.bool true) address →
          info.Lists (env work.resolver) options id work.occurrences i o
            (Name.toDeclaration address) := by
  refine ⟨fun address => ?_, fun address script => ?_, ?_⟩
  · have declares := Policy.isDeclaration_declarationIn address
    exact ⟨declares, Name.not_isScript_of_isDeclaration declares⟩
  · have declares := Name.isDeclaration_toDeclaration script
    exact ⟨declares, Name.not_isScript_of_isDeclaration declares⟩
  · intro env options libName registries actions id r info work hr stage hwork i o ho
    obtain ⟨l, closed⟩ := closed_of_record hr hwork stage
    constructor
    · intro stage looksUp
      have returned := closed.returned_iff.1 rfl i o ho
      obtain ⟨address, ending⟩ := Ending.failure?_eq_none.1 returned
      rw [Inquiry.script_ending] at ending
      obtain ⟨found, answer, rfl⟩ := Policy.evaluate_of_looksUpTypes looksUp ending
      rw [← Inquiry.script_ending] at ending
      exact ⟨found, answer, closed.lists ho ending (Policy.isDeclaration_declarationIn found)⟩
    · intro address reads
      have ending := Policy.evaluate_of_reads reads
      rw [← Inquiry.script_ending] at ending
      exact closed.lists ho ending (Name.isDeclaration_toDeclaration reads.script)

/-- Every specifier stands for a script with capitals, an inner suffix and a final line break. -/
def unusualScript : Nat → Environment := fun _ =>
  .constant { typeReferences := ["lib"], imports := ["pkg"] }
    { outcome := .returned "Main.D.TS.JS\n" }

/-- A type reference that is listed gets what is left of the script, and an import whose typings are
`true` gets the declaration next to it. Both are in the list. -/
theorem World.superseding_listed_unusual :
    let options : Options := { types := ["lib"], typings := [("pkg", .bool true)] }
    let occurrences : List Occurrence := [⟨.typeReference, "lib"⟩, ⟨.importSpecifier, "pkg"⟩]
    let actions : List Action := [.add "a" "", .resolve 0 "a"] ++ List.replicate 6 .tick
    let w := (initial options defaultLibName fun _ => {}).run unusualScript actions
    ∃ r info, w.store.record? ⟨"a", 0⟩ = some r ∧ r.cell.stage = .ended (.returned info) ∧
      info.Lists (unusualScript 0) options ⟨"a", 0⟩ occurrences 0 ⟨.typeReference, "lib"⟩
        "Main.D.TS\n" ∧
      info.Lists (unusualScript 0) options ⟨"a", 0⟩ occurrences 1 ⟨.importSpecifier, "pkg"⟩
        "Main.D.TS.d.ts\n" := by
  intro options occurrences actions w
  have shown : (w.store.record? ⟨"a", 0⟩).map
      (fun r => (r.work.map fun work => (work.resolver, work.occurrences), r.cell.stage)) =
        some (some (0, occurrences), .ended (.returned
          ⟨[("lib", some "Main.D.TS\n"), ("pkg", some "Main.D.TS.d.ts\n")],
            ["Main.D.TS\n", "Main.D.TS.d.ts\n"]⟩)) := by decide +kernel
  obtain ⟨r, work, hr, hwork, hresolver, hoccurrences, stage⟩ := exists_record shown
  have done := superseding_listed.2.2 unusualScript options defaultLibName (fun _ => {}) actions
    ⟨"a", 0⟩ r _ work hr stage hwork
  rw [hresolver, hoccurrences] at done
  refine ⟨r, _, hr, stage, ?_, ?_⟩
  · obtain ⟨found, answer, lists⟩ := (done 0 ⟨.typeReference, "lib"⟩ rfl).1 0
      ⟨by decide, .inl ⟨rfl, rfl⟩⟩
    cases answer
    exact lists
  · exact (done 1 ⟨.importSpecifier, "pkg"⟩ rfl).2 "Main.D.TS.JS\n"
      ⟨.inl rfl, rfl, by decide, by decide, .inl rfl⟩

end DepGraph
