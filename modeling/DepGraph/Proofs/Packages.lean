import DepGraph.Proofs.Calls
import Mathlib.Data.List.TakeWhile

/-!
# The package that owns a specifier

The package of a specifier is its first segment, or its first two if the first one is a scope.
Segments may be empty, and a scope may stand alone.

* `Name.packageChars_cases` — the three shapes of a specifier, each with its package;
* `Name.package_package`, `Name.package_cases` — taking the package is a projection onto a prefix
  that ends with a segment;
* `Name.package_append_iff` — a package owns whatever is within it, unless it is a lone scope;
* `Policy.package_projects` — **a specifier within a package goes by the typings configured for the
  package**, and configured typings are taken as they are for the package itself alone.
-/

set_option autoImplicit false

namespace DepGraph

namespace Name

variable {s first rest : List Char}

/-! ## Segments -/

/-- A first segment has no slash. -/
theorem slash_notMem_firstSegment (s : List Char) : '/' ∉ firstSegment s := by
  intro found
  have plain := List.mem_takeWhile_imp found
  simp at plain

theorem firstSegment_of_notMem (h : '/' ∉ s) : firstSegment s = s :=
  List.takeWhile_eq_self_iff.2 fun _ found => bne_iff_ne.2 fun slash => h (slash ▸ found)

theorem firstSegment_append (h : '/' ∉ first) (rest : List Char) :
    firstSegment (first ++ '/' :: rest) = first := by
  have kept : ∀ c ∈ first, (c != '/') = true := fun _ found =>
    bne_iff_ne.2 fun slash => h (slash ▸ found)
  rw [firstSegment, List.takeWhile_append_of_pos kept]
  simp

/-- A text is its first segment, or it goes on with a slash after it. -/
theorem firstSegment_cases (s : List Char) :
    s = firstSegment s ∨ ∃ rest, s = firstSegment s ++ '/' :: rest := by
  by_cases slash : '/' ∈ s
  · obtain ⟨first, rest, rfl, h⟩ := List.eq_append_cons_of_mem slash
    exact .inr ⟨rest, by rw [firstSegment_append h]⟩
  · exact .inl (firstSegment_of_notMem slash).symm

/-! ## The three shapes of a specifier -/

theorem packageChars_of_notMem (h : '/' ∉ s) : packageChars s = s := by
  unfold packageChars
  simp only [firstSegment_of_notMem h, List.drop_length]

theorem packageChars_unscoped (h : '/' ∉ first) (plain : first.head? ≠ some '@')
    (rest : List Char) : packageChars (first ++ '/' :: rest) = first := by
  unfold packageChars
  simp only [firstSegment_append h]
  split
  · exact absurd rfl plain
  · rfl

theorem packageChars_scoped (h : '/' ∉ first) (scope : first.head? = some '@')
    (rest : List Char) :
    packageChars (first ++ '/' :: rest) = first ++ '/' :: firstSegment rest := by
  obtain ⟨tail, rfl⟩ : ∃ tail, first = '@' :: tail := by
    cases first with
    | nil => cases scope
    | cons c tail => exact ⟨tail, by rw [Option.some.inj scope]⟩
  unfold packageChars
  simp only [firstSegment_append h, List.drop_left]

/-- **The shapes of a specifier**: one segment, a package and what is within it, or a scope with
what follows. -/
theorem packageChars_cases (s : List Char) :
    ('/' ∉ s ∧ packageChars s = s) ∨
      ∃ first rest, s = first ++ '/' :: rest ∧ '/' ∉ first ∧
        (first.head? ≠ some '@' ∧ packageChars s = first ∨
          first.head? = some '@' ∧ packageChars s = first ++ '/' :: firstSegment rest) := by
  by_cases slash : '/' ∈ s
  · obtain ⟨first, rest, rfl, h⟩ := List.eq_append_cons_of_mem slash
    refine .inr ⟨first, rest, rfl, h, ?_⟩
    by_cases scope : first.head? = some '@'
    · exact .inr ⟨scope, packageChars_scoped h scope rest⟩
    · exact .inl ⟨scope, packageChars_unscoped h scope rest⟩
  · exact .inl ⟨slash, packageChars_of_notMem slash⟩

/-- The package of a package is the package. -/
theorem packageChars_packageChars (s : List Char) :
    packageChars (packageChars s) = packageChars s := by
  obtain ⟨slash, whole⟩ | ⟨first, rest, -, h, ⟨-, first_eq⟩ | ⟨scope, both⟩⟩ := packageChars_cases s
  · rw [whole, whole]
  · rw [first_eq, packageChars_of_notMem h]
  · rw [both, packageChars_scoped h scope,
      firstSegment_of_notMem (slash_notMem_firstSegment rest)]

/-- A specifier is its package, or it goes on with a slash after it. -/
theorem packageChars_prefix (s : List Char) :
    s = packageChars s ∨ ∃ rest, s = packageChars s ++ '/' :: rest := by
  obtain ⟨-, whole⟩ | ⟨first, rest, rfl, -, ⟨-, first_eq⟩ | ⟨-, both⟩⟩ := packageChars_cases s
  · exact .inl whole.symm
  · exact .inr ⟨rest, by rw [first_eq]⟩
  · rw [both]
    obtain last | ⟨within, more⟩ := firstSegment_cases rest
    · exact .inl (by rw [← last])
    · refine .inr ⟨within, ?_⟩
      rw [List.append_assoc, List.cons_append, ← more]

/-- **A package owns whatever is within it**, unless it is a scope that stands alone. -/
theorem packageChars_append (own : packageChars s = s) (named : s.head? = some '@' → '/' ∈ s)
    (within : List Char) : packageChars (s ++ '/' :: within) = s := by
  obtain ⟨slash, -⟩ | ⟨first, rest, rfl, h, ⟨-, first_eq⟩ | ⟨scope, both⟩⟩ := packageChars_cases s
  · exact packageChars_unscoped slash (fun scope => slash (named scope)) within
  · -- The package would be longer than its first segment, which it is.
    have lengths := congrArg List.length (first_eq.symm.trans own)
    simp at lengths
  · have last : firstSegment rest = rest := by
      have parts := List.append_cancel_left (both.symm.trans own)
      exact (List.cons.inj parts).2
    have noSlash : '/' ∉ rest := last ▸ slash_notMem_firstSegment rest
    rw [List.append_assoc, List.cons_append, packageChars_scoped h scope,
      firstSegment_append noSlash]

/-! ## Packages of specifiers -/

/-- A scope without a package in it. -/
def LoneScope (name : String) : Prop := name.toList.head? = some '@' ∧ '/' ∉ name.toList

theorem toList_package (text : String) : (package text).toList = packageChars text.toList :=
  String.toList_ofList

theorem toList_within (name rest : String) :
    (name ++ "/" ++ rest).toList = name.toList ++ '/' :: rest.toList := by
  simp

theorem package_package (text : String) : package (package text) = package text := by
  rw [← String.toList_inj, toList_package, toList_package, packageChars_packageChars]

theorem package_cases (text : String) :
    text = package text ∨ ∃ rest, text = package text ++ "/" ++ rest := by
  simp only [← String.toList_inj, toList_within, toList_package]
  obtain whole | ⟨rest, within⟩ := packageChars_prefix text.toList
  · exact .inl whole
  · exact .inr ⟨.ofList rest, by rwa [String.toList_ofList]⟩

/-- The packages that own whatever is within them are those that are no lone scope. -/
theorem package_append_iff {name : String} (own : package name = name) :
    (∀ rest, package (name ++ "/" ++ rest) = name) ↔ ¬ LoneScope name := by
  simp only [← String.toList_inj, toList_package, toList_within] at own ⊢
  constructor
  · rintro owns ⟨scope, noSlash⟩
    -- What follows a lone scope is a part of the package.
    have both := owns ""
    rw [packageChars_scoped noSlash scope] at both
    have lengths := congrArg List.length both
    simp at lengths
  · intro named rest
    refine packageChars_append own (fun scope => ?_) rest.toList
    by_contra noSlash
    exact named ⟨scope, noSlash⟩

end Name

namespace Policy

/-- What is within a package goes by the typings that are configured for the package, which say
nothing about it but that there are some. -/
theorem override_within {text : String} (within : Name.package text ≠ text) (options : Options) :
    override options text = (override options (Name.package text)).map fun _ => .bool true := by
  have inner : text ≠ Name.package text := fun whole => within whole.symm
  simp only [override, Name.package_package]
  cases options.typingsFor (Name.package text) with
  | none => rfl
  | some given => cases truthy : given.truthy <;> simp [truthy, inner]

/-- The typings that are configured for a package itself are taken as they are. -/
theorem override_package {name : String} (own : Name.package name = name) (options : Options) :
    override options name = (options.typingsFor name).filter Value.truthy := by
  simp only [override, own]
  cases options.typingsFor name with
  | none => rfl
  | some given => cases truthy : given.truthy <;> simp [truthy, Option.filter]

/-- **Taking the package is a projection**: the package of a package is itself, and a specifier is
its package or is within it. A package owns whatever is within it if it is no lone scope. So
whatever is within a package goes by the typings configured for that package, and configured typings
are taken as they are by exactly those imports that are their own packages. -/
theorem package_projects (text : String) :
    Name.package (Name.package text) = Name.package text ∧
    (text = Name.package text ∨ ∃ rest, text = Name.package text ++ "/" ++ rest) ∧
    (Name.package text = text →
      ((∀ rest, Name.package (text ++ "/" ++ rest) = text) ↔ ¬ Name.LoneScope text)) ∧
    (Name.package text ≠ text → ∀ options : Options,
      override options text = (override options (Name.package text)).map fun _ => .bool true) ∧
    ((∀ options : Options, override options text = (options.typingsFor text).filter Value.truthy) ↔
      Name.package text = text) := by
  refine ⟨Name.package_package text, Name.package_cases text, Name.package_append_iff,
    override_within, ?_, override_package⟩
  intro exact
  by_contra within
  -- Typings that are configured for the package tell the two apart: they are none of the text's own.
  let options : Options := { typings := [(Name.package text, .text "t.d.ts")] }
  have taken := exact options
  have configured : options.typingsFor (Name.package text) = some (.text "t.d.ts") := by
    simp [options, Options.typingsFor]
  have unconfigured : options.typingsFor text = none := by
    simp [options, Options.typingsFor, Ne.symm within]
  rw [override_within within, override_package (Name.package_package text), configured,
    unconfigured] at taken
  simp [Value.truthy, Scalar.truthy] at taken

/-- A scope followed by an empty segment is a package, and it owns what follows that. -/
theorem package_projects_empty_segment :
    Name.package "@a//b" = "@a/" ∧ Name.package "@a/" = "@a/" ∧
      (∀ rest, Name.package ("@a/" ++ "/" ++ rest) = "@a/") ∧
      override { typings := [("@a/", .text "./t.d.ts")] } "@a//b" = some (.bool true) := by
  have inner : Name.package "@a//b" = "@a/" := by decide
  have own : Name.package "@a/" = "@a/" := by decide
  obtain ⟨-, -, owns, -, -⟩ := package_projects "@a/"
  obtain ⟨-, -, -, within, -⟩ := package_projects "@a//b"
  refine ⟨inner, own, (owns own).2 fun lone => lone.2 (by decide), ?_⟩
  rw [within (by rw [inner]; decide), inner]
  rfl

end Policy

end DepGraph
