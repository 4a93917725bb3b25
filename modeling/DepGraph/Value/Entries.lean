import DepGraph.Value.Basic

/-!
# Entries of a mapping

A mapping is the list of its entries in the order in which their keys were first written. Writing
a key again replaces its value and keeps its place.

* `Entries.get?` — the value under a key.
* `Entries.put` — writes one entry; `Entries.ofList` writes several.
-/

set_option autoImplicit false

namespace DepGraph

/-- Key and value pairs in the order of the keys' first appearance. -/
abbrev Entries := List (Scalar × Value)

namespace Entries

/-- The value under a key. -/
def get? (key : Scalar) : Entries → Option Value
  | [] => none
  | (k, v) :: rest => if k.sameKey key then some v else get? key rest

/-- Writes a value under a key: in place if the key is there, at the end otherwise. -/
def put (key : Scalar) (value : Value) : Entries → Entries
  | [] => [(key, value)]
  | (k, v) :: rest => if k.sameKey key then (k, value) :: rest else (k, v) :: put key value rest

/-- The mapping that results from writing the entries one after the other. -/
def ofList (pairs : List (Scalar × Value)) : Entries :=
  pairs.foldl (fun acc (k, v) => put k v acc) []

/-- The value under a text key. -/
def field? (name : String) (entries : Entries) : Option Value :=
  get? (.text name) entries

/-- The keys in order. -/
def keys (entries : Entries) : List Scalar := entries.map (·.1)

end Entries

/-- The value of a field of a mapping. -/
def Value.field? (name : String) : Value → Option Value
  | .map entries => Entries.field? name entries
  | _ => none

end DepGraph
