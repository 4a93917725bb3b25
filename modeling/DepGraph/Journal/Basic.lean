import DepGraph.Journal.Entry
import DepGraph.Keyed
import DepGraph.Path

/-!
# The journal

Records at or above a level are appended to a file, one line each. Opening the journal again moves
it to another file.

Main definitions: `Surroundings` (what the journal relies on), `Journal` (level, sinks and files),
`Journal.start`, `Journal.emit`, `Journal.write`.
-/

set_option autoImplicit false

namespace DepGraph

namespace Journal

/-- What the journal finds around it. -/
structure Surroundings where
  /-- The file that a path leads to. Unless told otherwise, all paths start from one place. -/
  locate : String → String := fun path => String.ofList (Path.normal path.toList)
  /-- The path that counts where none is given. -/
  path : String := "./tsdeps.log.jsonl"
  /-- The name of the level that counts where none is given. -/
  level : String := "INFO"
  bounds : Bounds := {}

end Journal

/-- The level in force, the paths that records go to, and the texts of all files. -/
structure Journal where
  around : Journal.Surroundings := {}
  level : Int := Journal.initialLevel
  sinks : List String := []
  files : List (String × String) := []

namespace Journal

/-- Adds a line to a file, which comes to be if it was not there. -/
def append (file line : String) : List (String × String) → List (String × String) :=
  Keyed.update file fun text => text.getD "" ++ line ++ "\n"

/-- A text, or what stands for it where it is empty. -/
def orElse (text default : String) : String := if text = "" then default else text

/-- Opens the journal: from now on records go to the file of this path alone. Without a path or a
level, or with an empty one, the default counts. -/
def start (j : Journal) (path : String) (level : Option String) : Journal :=
  { j with
    level := levelOfName (orElse (level.getD "") j.around.level)
    sinks := [orElse path j.around.path] }

/-- Whether a record of a level is kept. -/
def keeps (j : Journal) (level : Int) : Bool := 0 < level && j.level ≤ level

/-- Adds a line to every file that records go to. -/
def emit (j : Journal) (line : String) : Journal :=
  let addTo (files : List (String × String)) (path : String) :=
    append (j.around.locate path) line files
  { j with files := j.sinks.foldl addTo j.files }

/-- Writes the record of a call. A call with an extra of a reserved name is refused with that
name; a record that has no line is dropped. -/
def write (j : Journal) (time : String) (e : Entry) : Except String Journal :=
  if j.keeps e.level then
    match e.refused? with
    | some name => .error name
    | none =>
      match e.line? j.around.bounds time with
      | some line => .ok (j.emit line)
      | none => .ok j
  else .ok j

end Journal

end DepGraph
