import DepGraph.Resolution.Environment
import DepGraph.Resolution.Layout
import DepGraph.Source.Extract

/-!
# Injected functions given by tables

`Tables.environment` answers calls from tables. A call that no table mentions gets the address of
the fixed layout, a descriptor that says nothing, or the failure that a file cannot be found.
-/

set_option autoImplicit false

namespace DepGraph

/-- Reads a source text, and tells what was found. -/
def readSource (text : String) : Extraction × List Notice :=
  let found := Source.extract text
  (found, [.extracted found])

/-- Rows for the calls that do not have the default answer. -/
structure Tables where
  /-- By origin and specifier with a bar between them, or by specifier; a row without an address
  leaves that to the layout. -/
  addresses : List (String × Reply (Option String)) := []
  descriptors : List (String × Reply Descriptor) := []
  sources : List (String × Reply String) := []
  /-- In place of reading texts: what to find in each; nothing in any other. -/
  extractions : Option (List (String × Extraction)) := none

namespace Tables

/-- The reply to the question for an address. -/
def addressReply (t : Tables) (specifier origin : String) : Reply String :=
  let row := (t.addresses.lookup (origin ++ "|" ++ specifier)).or (t.addresses.lookup specifier)
  match row with
  | none => { outcome := .returned (Layout.address specifier origin) }
  | some reply =>
    { gates := reply.gates
      outcome := match reply.outcome with
        | .returned (some address) => .returned address
        | .returned none => .returned (Layout.address specifier origin)
        | .raised cause => .raised cause
        | .cancelled => .cancelled }

/-- The reply to the question for a text. -/
def sourceReply (t : Tables) (name : String) : Reply String :=
  (t.sources.lookup name).getD { outcome := .raised ⟨"FileNotFoundError", name⟩ }

/-- The environment that answers from the tables, reading texts with `read` where no table says
what to find. -/
def environment (t : Tables) (read : String → Extraction × List Notice) : Environment where
  address := fun _ specifier origin => t.addressReply specifier origin
  descriptor := fun _ address =>
    (t.descriptors.lookup address).getD { outcome := .returned ⟨[]⟩ }
  source := fun _ name => t.sourceReply name
  extract := fun text =>
    match t.extractions with
    | some rows => .ok ((rows.lookup text).getD {}, [])
    | none => .ok (read text)

end Tables

end DepGraph
