import DepGraph.Fault
import DepGraph.Value.Entries
import DepGraph.Schedule.Script
import DepGraph.Resolution.Event

/-!
# Injected functions

An `Environment` answers the three kinds of call and reads the specifiers off a text. Every answer
may first wait at gates. An answer may depend on which call it is, so that any behaviour of the
functions during one run is an environment.
-/

set_option autoImplicit false

namespace DepGraph

/-- An answer: the gates it waits for, one after the other, and how the call then ends. -/
structure Reply (α : Type) where
  gates : List Gate := []
  outcome : Ending Cause α

/-- What is known of a package, by the names of its fields. -/
structure Descriptor where
  fields : Entries
  deriving DecidableEq, Repr

namespace Descriptor

/-- A mapping has fields, any other value has none. -/
def ofValue : Value → Descriptor
  | .map entries => ⟨entries⟩
  | _ => ⟨[]⟩

/-- The value that a descriptor gives for the typings of its package. -/
def typings (d : Descriptor) : Value := (Entries.field? "typings" d.fields).getD .null

end Descriptor

/-- Which request of a walk: in which round, and at which place in it. -/
structure FetchId where
  walk : Nat
  round : Nat
  place : Nat
  deriving DecidableEq, Repr

/-- The functions that a resolver and a walk are given. -/
structure Environment where
  address : Caller → (specifier origin : String) → Reply String
  descriptor : Caller → (address : String) → Reply Descriptor
  source : FetchId → (name : String) → Reply String
  /-- The specifiers of a text with the notices given while they are read, or a failure. -/
  extract : String → Except Cause (Extraction × List Notice)

end DepGraph
