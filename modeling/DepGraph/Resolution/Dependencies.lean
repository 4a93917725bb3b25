import DepGraph.Keyed
import DepGraph.Name
import DepGraph.Registry
import DepGraph.Specifier.Basic

/-!
# Dependencies of a file

`Dependencies.build` puts together what the specifiers of a file were resolved to: the mapping from
specifier to address, and the list of what the file depends on, the registered declarations last.
-/

set_option autoImplicit false

namespace DepGraph

/-- What a file depends on. -/
structure Dependencies where
  /-- The address of every specifier, in order of first occurrence; some have none. -/
  mappings : List (String × Option String) := []
  /-- The checkable addresses, each once, followed by registered declaration files. -/
  list : List String := []
  deriving DecidableEq, Repr, Inhabited

namespace Dependencies

/-- The address of each text; of two occurrences the later one counts, at the place of the
first. -/
def merge (found : List (String × Option String)) : List (String × Option String) :=
  found.foldl (fun acc (text, address) => Keyed.put text address acc) []

/-- The elements of a list, each at its first place. -/
def distinct (xs : List String) : List String :=
  xs.foldl (fun acc x => if acc.contains x then acc else acc ++ [x]) []

/-- The checkable addresses among those mapped to, each once. -/
def direct (mappings : List (String × Option String)) : List String :=
  distinct ((mappings.filterMap (·.2)).filter Name.isSource)

/-- The registered declarations that a file depends on besides: not itself, and not what it
depends on anyway. -/
def registered (file : String) (direct : List String) (registry : Registry) : List String :=
  registry.addresses.filter fun a => a ≠ file && !direct.contains a

/-- The dependencies of a file whose specifiers were found to have the given addresses. -/
def build (file : String) (found : List (String × Option String)) (registry : Registry) :
    Dependencies :=
  let mappings := merge found
  let direct := direct mappings
  { mappings, list := direct ++ registered file direct registry }

end Dependencies

end DepGraph
