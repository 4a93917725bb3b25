import DepGraph.Value.Entries

/-!
# Merging settings

`Settings.merge base overlay` takes every entry of both mappings. Where both hold a mapping under
one key the two are merged in turn; otherwise the overlay wins. Keys of the base come first and
keep their places.
-/

set_option autoImplicit false

namespace DepGraph.Settings

mutual

/-- The value that stands where `old` stood, once the overlay gives a value there. -/
def mergeValue (old : Option Value) : Value → Value
  | .map overlay =>
    match old with
    | some (.map base) => .map (mergeEntries base overlay)
    | _ => .map overlay
  | v => v

/-- Writes the entries of an overlay over those of a mapping. -/
def mergeEntries (base : Entries) : List (Scalar × Value) → Entries
  | [] => base
  | (k, v) :: rest => mergeEntries (base.put k (mergeValue (base.get? k) v)) rest

end

/-- The two mappings merged, the overlay winning. -/
def merge (base overlay : Entries) : Entries := mergeEntries base overlay

end DepGraph.Settings
