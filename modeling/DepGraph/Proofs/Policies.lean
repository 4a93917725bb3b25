import DepGraph.Resolution.Policy
import DepGraph.Proofs.Inquiries

/-!
# What can go wrong with one specifier

The inquiry of a specifier fails with a call that fails, or with the typings of its package:

* `Typings.Malformed` — the values that are no typings, `Typings.parse_error`.
* `Policy.Reads` — when an occurrence reads a value as the typings of its package.
* `Policy.objection_iff` — an inquiry comes to a fault by itself if and only if it reads a value
  that is no typings.
-/

set_option autoImplicit false

namespace DepGraph

/-- A value that counts as given, but is neither true nor a text. -/
def Typings.Malformed (value : Value) : Prop :=
  value.truthy = true ∧ value ≠ .bool true ∧ ∀ path, value ≠ .text path

/-- **Only malformed typings are refused**, in the name of the script they were read for. -/
theorem Typings.parse_error {value : Value} {address : String} {f : Fault} :
    Typings.parse value address = .error f ↔
      Typings.Malformed value ∧ f = .badTypings value address := by
  unfold parse Malformed
  split
  · simp
  · rename_i path
    simp
  · rename_i htrue htext
    split
    · rename_i htruthy
      simp only [Except.error.injEq]
      constructor
      · rintro rfl
        exact ⟨⟨htruthy, htrue, htext⟩, rfl⟩
      · rintro ⟨-, rfl⟩
        rfl
    · rename_i hfalsy
      simp [hfalsy]

namespace Inquiry

variable {α β : Type}

theorem bind_eq (q : Inquiry α) (k : α → Inquiry β) : (q >>= k) = q.bind k := rfl

theorem pure_eq (a : α) : (pure a : Inquiry α) = .answer a := rfl

theorem bind_assoc {γ : Type} (q : Inquiry α) (k : α → Inquiry β) (l : β → Inquiry γ) :
    (q.bind k).bind l = q.bind fun a => (k a).bind l := by
  induction q with
  | answer a => rfl
  | fault f => rfl
  | address specifier next ih => simp only [bind, ih]
  | descriptor a specifier next ih => simp only [bind, ih]
  | note n next ih => simp only [bind, ih]

theorem OnBehalfOf.bind {text : String} {q : Inquiry α} (hq : q.OnBehalfOf text)
    {k : α → Inquiry β} (hk : ∀ a, (k a).OnBehalfOf text) : (q.bind k).OnBehalfOf text := by
  induction q with
  | answer a => exact hk a
  | fault f => exact trivial
  | address specifier next ih => exact fun a => ih a (hq a)
  | descriptor a specifier next ih => exact ⟨hq.1, fun d => ih d (hq.2 d)⟩
  | note n next ih => exact ih hq

theorem onBehalfOf_ofExcept {text : String} (x : Except Fault α) :
    (Inquiry.ofExcept x).OnBehalfOf text := by
  cases x <;> exact trivial

end Inquiry

namespace Policy

open Inquiry

variable (options : Options) (origin text : String)

theorem onBehalfOf_reference : (reference options text).OnBehalfOf text := fun _ => trivial

theorem onBehalfOf_typesPackage : (typesPackage options text).OnBehalfOf text := by
  unfold typesPackage
  split
  · exact fun _ => trivial
  · exact trivial

theorem onBehalfOf_packageTypings (address : String) :
    (packageTypings options text address).OnBehalfOf text := by
  have hvalue : (typingsValue options text address).OnBehalfOf text := by
    unfold typingsValue
    split
    · exact trivial
    · exact ⟨rfl, fun _ => trivial⟩
  have haddress : ∀ t, (typingsAddress text address t).OnBehalfOf text := by
    intro t
    cases t with
    | absent => exact trivial
    | derived => exact trivial
    | explicit path => exact fun _ => trivial
  exact hvalue.bind fun value => (onBehalfOf_ofExcept _).bind haddress

theorem onBehalfOf_importTarget : (importTarget options origin text).OnBehalfOf text := by
  refine fun address => ?_
  change Inquiry.OnBehalfOf text (if Name.isScript address = true then _ else _)
  split
  · refine (onBehalfOf_typesPackage options text).bind fun found => ?_
    split
    · exact trivial
    · refine (onBehalfOf_packageTypings options text address).bind fun found => ?_
      split <;> exact trivial
  · exact trivial

/-- Descriptors are asked for on behalf of the specifier itself. -/
theorem onBehalfOf_inquiry (o : Occurrence) :
    (Policy.inquiry options origin o).OnBehalfOf o.text := by
  unfold Policy.inquiry
  split
  · exact (onBehalfOf_reference options o.text).bind fun _ => trivial
  · exact onBehalfOf_typesPackage options o.text
  · exact (onBehalfOf_importTarget options origin o.text).bind fun _ => trivial
  · exact (onBehalfOf_importTarget options origin o.text).bind fun _ => trivial

/-! ## Typings that are read -/

/-- Occurrence `i` of a file reads `value` as the typings of its package: its own address is the
script at `address`, no typings package supersedes it, and the value is the configured one, or else
that of the descriptor of the package. -/
structure Reads (env : Environment) (options : Options) (id : FileId) (i : Nat) (o : Occurrence)
    (value : Value) (address : String) : Prop where
  kind : o.kind = .importSpecifier ∨ o.kind = .ambientModule
  target : (env.address ⟨id, i, 0⟩ (importSpecifier id.name o.text) id.name).outcome =
    .returned address
  script : Name.isScript address = true
  types : options.types.contains o.text = false
  value : override options o.text = some value ∨ override options o.text = none ∧
    ∃ d, (env.descriptor ⟨id, i, 1⟩ address).outcome = .returned d ∧ d.typings = value

/-- Whoever reads typings has asked for an address before. -/
theorem Reads.called {env : Environment} {options : Options} {id : FileId} {i : Nat}
    {o : Occurrence} {value : Value} {address : String}
    (h : Reads env options id i o value address) :
    .called ⟨id, i, 0⟩ (.address (importSpecifier id.name o.text) id.name) ∈
      ((Policy.inquiry options id.name o).script env id i 0).events := by
  rcases h.kind with hkind | hkind <;>
    simp [Policy.inquiry, hkind, importTarget, bind_eq, askAddress, Inquiry.bind, Inquiry.script]

/-- The declaration within a typings package always has a name. -/
theorem given?_declarationIn (address : String) :
    given? (some (declarationIn address)) = some (declarationIn address) := by
  have hne : declarationIn address ≠ "" := by
    unfold declarationIn
    generalize (if Name.isScript address then Name.withoutScriptSuffix address else address) = stem
    dsimp only
    split
    · rename_i hdeclaration
      intro hempty
      rw [hempty] at hdeclaration
      revert hdeclaration
      decide
    · intro hempty
      simpa using congrArg String.toList hempty
  simp [given?, hne]

variable {β : Type} (env : Environment) (id : FileId) (i : Nat)

/-- Once the typings of a package are known, whatever is asked comes to no fault by itself. -/
theorem objection_typingsAddress (stage : Nat) (address : String) (typings : Typings)
    (next : Option String → Inquiry β) (hnext : ∀ found, ∃ a, next found = .answer a) :
    ((typingsAddress text address typings).bind next).objection env id i stage = none := by
  cases typings with
  | absent =>
    obtain ⟨a, ha⟩ := hnext none
    simp [typingsAddress, pure_eq, Inquiry.bind, ha, objection]
  | derived =>
    obtain ⟨a, ha⟩ := hnext (some (Name.toDeclaration address))
    simp [typingsAddress, pure_eq, Inquiry.bind, ha, objection]
  | explicit path =>
    simp only [typingsAddress, bind_eq, pure_eq, askAddress, Inquiry.bind, objection]
    split
    · rename_i found _
      obtain ⟨a, ha⟩ := hnext (some found)
      simp [ha, objection]
    · rfl

/-- A value read as typings is objected to if it is malformed. -/
theorem objection_parse (stage : Nat) (address : String) (value : Value)
    (next : Option String → Inquiry β) (hnext : ∀ found, ∃ a, next found = .answer a)
    {f : Fault} :
    ((ofExcept (Typings.parse value address)).bind fun typings =>
        (typingsAddress text address typings).bind next).objection env id i stage = some f ↔
      Typings.Malformed value ∧ f = .badTypings value address := by
  rw [← Typings.parse_error]
  cases hparse : Typings.parse value address with
  | ok typings =>
    simp [Inquiry.ofExcept, Inquiry.bind,
      objection_typingsAddress text env id i stage address typings next hnext]
  | error f' => simp [Inquiry.ofExcept, Inquiry.bind, objection]

/-- The typings of a package are objected to if a malformed value is read. -/
theorem objection_packageTypings (address : String) (next : Option String → Inquiry β)
    (hnext : ∀ found, ∃ a, next found = .answer a) {f : Fault} :
    ((packageTypings options text address).bind next).objection env id i 1 = some f ↔
      ∃ value, (override options text = some value ∨ override options text = none ∧
          ∃ d, (env.descriptor ⟨id, i, 1⟩ address).outcome = .returned d ∧ d.typings = value) ∧
        Typings.Malformed value ∧ f = .badTypings value address := by
  have hassoc : (packageTypings options text address).bind next =
      (typingsValue options text address).bind fun value =>
        (Inquiry.ofExcept (Typings.parse value address)).bind fun typings =>
          (typingsAddress text address typings).bind next := by
    simp only [packageTypings, bind_eq, Inquiry.bind_assoc]
  rw [hassoc]
  cases hoverride : override options text with
  | some value =>
    simp only [typingsValue, hoverride, bind_eq, pure_eq, Inquiry.tell, Inquiry.bind, objection,
      objection_parse text env id i 1 address value next hnext]
    simp
  | none =>
    simp only [typingsValue, hoverride, bind_eq, pure_eq, askDescriptor, Inquiry.bind, objection]
    cases hd : (env.descriptor ⟨id, i, 1⟩ address).outcome with
    | returned d =>
      simp only [objection_parse text env id i 2 address d.typings next hnext]
      simp
    | raised cause => simp
    | cancelled => simp

/-- The inquiry of an import comes to a fault by itself exactly if a malformed value is read. -/
theorem objection_importTarget {f : Fault} :
    ((importTarget options id.name text).bind fun a =>
        Inquiry.answer (some a)).objection env id i 0 = some f ↔
      ∃ value address, (env.address ⟨id, i, 0⟩ (importSpecifier id.name text) id.name).outcome =
          .returned address ∧ Name.isScript address = true ∧ options.types.contains text = false ∧
        (override options text = some value ∨ override options text = none ∧
          ∃ d, (env.descriptor ⟨id, i, 1⟩ address).outcome = .returned d ∧ d.typings = value) ∧
        Typings.Malformed value ∧ f = .badTypings value address := by
  simp only [importTarget, bind_eq, pure_eq, askAddress, Inquiry.bind, objection]
  cases htarget : (env.address ⟨id, i, 0⟩ (importSpecifier id.name text) id.name).outcome with
  | raised cause => simp
  | cancelled => simp
  | returned address =>
    by_cases hscript : Name.isScript address = true
    · cases htypes : options.types.contains text with
      | true =>
        -- The typings package supersedes the script, or the call for it fails.
        simp only [hscript, if_true, typesPackage, htypes, bind_eq, pure_eq, askAddress,
          Inquiry.tell, Inquiry.bind, objection]
        cases (env.address ⟨id, i, 0 + 1⟩ ("@types/" ++ text) id.name).outcome with
        | returned found => simp [given?_declarationIn, Inquiry.bind, objection]
        | raised cause => simp
        | cancelled => simp
      | false =>
        have hnone : given? none = none := rfl
        simp only [hscript, if_true, typesPackage, htypes, Bool.false_eq_true, if_false, pure_eq,
          Inquiry.bind, hnone, Inquiry.bind_assoc]
        rw [show 0 + 1 = 1 from rfl, objection_packageTypings]
        · simp [hscript]
        · intro found
          cases hg : given? found with
          | none => exact ⟨_, rfl⟩
          | some a => exact ⟨_, rfl⟩
    · simp only [hscript, Bool.false_eq_true, if_false, Inquiry.bind, objection]
      simp [hscript]

/-- **An inquiry comes to a fault by itself if and only if it reads malformed typings.** -/
theorem objection_iff {o : Occurrence} {f : Fault} :
    (Policy.inquiry options id.name o).objection env id i 0 = some f ↔
      ∃ value address, Reads env options id i o value address ∧ Typings.Malformed value ∧
        f = .badTypings value address := by
  have himport : (o.kind = .importSpecifier ∨ o.kind = .ambientModule) →
      Policy.inquiry options id.name o =
        (importTarget options id.name o.text).bind fun a => Inquiry.answer (some a) := by
    unfold Policy.inquiry
    rintro (h | h) <;> rw [h] <;> rfl
  by_cases hkind : o.kind = .importSpecifier ∨ o.kind = .ambientModule
  · rw [himport hkind, objection_importTarget]
    constructor
    · rintro ⟨value, address, htarget, hscript, htypes, hvalue, hmalformed, rfl⟩
      exact ⟨value, address, ⟨hkind, htarget, hscript, htypes, hvalue⟩, hmalformed, rfl⟩
    · rintro ⟨value, address, hreads, hmalformed, rfl⟩
      exact ⟨value, address, hreads.target, hreads.script, hreads.types, hreads.value, hmalformed,
        rfl⟩
  · have hnone : (Policy.inquiry options id.name o).objection env id i 0 = none := by
      unfold Policy.inquiry
      split
      · simp only [reference, bind_eq, pure_eq, askAddress, Inquiry.bind, objection]
        split <;> rfl
      · unfold typesPackage
        split
        · simp only [bind_eq, pure_eq, askAddress, Inquiry.tell, Inquiry.bind, objection]
          split <;> rfl
        · rfl
      · exact absurd (.inl ‹_›) hkind
      · exact absurd (.inr ‹_›) hkind
    rw [hnone]
    constructor
    · intro h
      cases h
    · rintro ⟨value, address, hreads, -⟩
      exact absurd hreads.kind hkind

end Policy

end DepGraph
