import DepGraph.Text.Quoted

/-!
# Registered declaration files

A registry is an ordered set of addresses that only grows. Every file that is resolved depends on
the addresses registered by the time its resolution completes.

* `Registry.register` — adds an address at the end unless it is there.
* `Registry.iterate` — visits the addresses held at the start, registering others on the way.
-/

set_option autoImplicit false

namespace DepGraph

/-- The registered addresses in order of first registration. -/
structure Registry where
  addresses : List String := []
  deriving DecidableEq, Repr, Inhabited

namespace Registry

/-- The registry with nothing in it. -/
def empty : Registry := ⟨[]⟩

def contains (r : Registry) (address : String) : Bool := r.addresses.contains address

def size (r : Registry) : Nat := r.addresses.length

/-- Adds an address at the end; one that is there stays where it is. -/
def register (r : Registry) (address : String) : Registry :=
  if r.contains address then r else ⟨r.addresses ++ [address]⟩

/-- Registers several addresses in order. -/
def registerAll (r : Registry) (addresses : List String) : Registry :=
  addresses.foldl register r

/-- Visits `seen`, registering the next of `additions` at each element. -/
def iterateOver (r : Registry) : List String → List String → Registry
  | _ :: seen, address :: additions => iterateOver (r.register address) seen additions
  | _, _ => r

/-- An iteration visits the addresses held when it begins, whatever is registered meanwhile. It
gives the elements visited and the registry after it. -/
def iterate (r : Registry) (additions : List String) : List String × Registry :=
  (r.addresses, r.iterateOver r.addresses additions)

/-- The text that stands for a registry in messages. -/
def render (r : Registry) : String :=
  "DeclarationRegistry(" ++ Text.quoteList r.addresses ++ ")"

@[simp] theorem contains_iff (r : Registry) (a : String) :
    r.contains a = true ↔ a ∈ r.addresses := by
  simp [contains]

theorem addresses_register (r : Registry) (a : String) :
    (r.register a).addresses = if a ∈ r.addresses then r.addresses else r.addresses ++ [a] := by
  unfold register
  by_cases h : a ∈ r.addresses <;> simp [h]

end Registry

end DepGraph
