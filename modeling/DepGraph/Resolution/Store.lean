import DepGraph.Keyed
import DepGraph.Schedule.Cell
import DepGraph.Schedule.Join
import DepGraph.Settings.Options
import DepGraph.Resolution.Dependencies
import DepGraph.Resolution.Event
import DepGraph.Fault

/-!
# The store of source files

The store knows files by name, in the order in which the names were first added. Adding a name
again begins a new generation of that file; records of earlier generations stay, so that work on
them can go on, but only the newest one is found under the name.
-/

set_option autoImplicit false

namespace DepGraph

/-- The place of a waiter within a walk: which walk, and which of its files. -/
structure WalkRef where
  walk : Nat
  place : Nat
  deriving DecidableEq, Repr

/-- The specifiers of a file on their way to addresses. -/
structure Work where
  /-- The resolver that does the work. -/
  resolver : Nat
  occurrences : List Occurrence
  join : Join Event Fault (Option String)

/-- What the store holds of one generation of a file. -/
structure Record where
  text : String
  /-- Set when the text is found to be the entry of the standard library. -/
  isLib : Bool := false
  /-- Set when the resolution completes. -/
  dependencies : Option Dependencies := none
  cell : Cell WalkRef Fault Dependencies := {}
  work : Option Work := none

/-- The name under which the entry of the standard library is known by default. -/
def defaultLibName : String := "lib.d.ts"

/-- Files by name, each with its generations, oldest first. -/
structure Store where
  options : Options := {}
  libName : String := defaultLibName
  files : List (String × List Record) := []

namespace Store

/-- The generations of a name. -/
def generations (s : Store) (name : String) : List Record := (s.files.lookup name).getD []

/-- Whether a file of this name was added. -/
def contains (s : Store) (name : String) : Bool := s.files.any (·.1 = name)

/-- The names in order of first addition. -/
def names (s : Store) : List String := s.files.map (·.1)

def size (s : Store) : Nat := s.files.length

/-- The newest file of a name. -/
def current? (s : Store) (name : String) : Option FileId :=
  if s.contains name then some ⟨name, (s.generations name).length - 1⟩ else none

/-- The record of a file. -/
def record? (s : Store) (id : FileId) : Option Record := (s.generations id.name)[id.generation]?

/-- The record found under a name. -/
def find? (s : Store) (name : String) : Option Record := (s.current? name).bind s.record?

/-- Changes the record of a file. -/
def modify (s : Store) (id : FileId) (change : Record → Record) : Store :=
  { s with files := Keyed.modify id.name (fun rs => rs.modify id.generation change) s.files }

/-- Adds a file. A name that is there keeps its place and gets a new generation. -/
def add (s : Store) (name text : String) : Store :=
  { s with files := Keyed.update name (fun rs => rs.getD [] ++ [{ text }]) s.files }

end Store

end DepGraph
