/-!
# Specifiers of one file

A source file refers to others by raw specifiers of four kinds. `Extraction` holds them in source
order within each kind; `Extraction.occurrences` lists them all in the order in which their results
are merged, so that of two occurrences of one text the later kind wins.
-/

set_option autoImplicit false

namespace DepGraph

/-- The kinds of specifier, in merge order. -/
inductive SpecifierKind where
  | fileReference
  | typeReference
  | importSpecifier
  | ambientModule
  deriving DecidableEq, Repr

namespace SpecifierKind

/-- All kinds, in merge order. -/
def all : List SpecifierKind := [fileReference, typeReference, importSpecifier, ambientModule]

/-- The name of a kind. -/
def name : SpecifierKind → String
  | fileReference => "file_reference"
  | typeReference => "type_reference_directive"
  | importSpecifier => "import"
  | ambientModule => "ambient_external_module"

end SpecifierKind

/-- The specifiers found in one file, and whether it is the entry of the standard library. -/
structure Extraction where
  fileReferences : List String := []
  typeReferences : List String := []
  imports : List String := []
  ambientModules : List String := []
  isLib : Bool := false
  deriving DecidableEq, Repr, Inhabited

/-- One specifier where it occurs. -/
structure Occurrence where
  kind : SpecifierKind
  text : String
  deriving DecidableEq, Repr

namespace Extraction

/-- The specifiers of one kind, in source order. -/
def ofKind (e : Extraction) : SpecifierKind → List String
  | .fileReference => e.fileReferences
  | .typeReference => e.typeReferences
  | .importSpecifier => e.imports
  | .ambientModule => e.ambientModules

/-- All specifiers in merge order. -/
def occurrences (e : Extraction) : List Occurrence :=
  SpecifierKind.all.flatMap fun kind => (e.ofKind kind).map fun text => ⟨kind, text⟩

end Extraction

end DepGraph
