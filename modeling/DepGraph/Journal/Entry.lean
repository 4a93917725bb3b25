import DepGraph.Journal.Level
import DepGraph.Journal.Template
import DepGraph.Json.Printer

/-!
# Records

A record is written as one line of JSON: its time, level, schema, logger and message, and then
whatever else the call gave by name. Names that every record has for itself are refused, and names
of the base fields do not replace them. A record beyond the bounds of what can be written has no
line.

Main definitions: `Entry`, `Entry.refused?`, `Entry.line?`.
-/

set_option autoImplicit false

namespace DepGraph.Journal

/-- A call that asks for a record. -/
structure Entry where
  level : Int
  logger : String
  template : String
  arguments : List Value := []
  extras : List (String × Value) := []

/-- The names that every record has for itself. -/
def reservedNames : List String :=
  ["args", "asctime", "created", "exc_info", "exc_text", "filename", "funcName", "levelname",
    "levelno", "lineno", "message", "module", "msecs", "msg", "name", "pathname", "process",
    "processName", "relativeCreated", "stack_info", "thread", "threadName"]

/-- The name of the logger that has none. -/
def rootName : String := "root"

/-- The schema that every record names. -/
def schema : Value := .map [(.text "name", .text "tsdeps.log"), (.text "ver", .text "1.0.0")]

namespace Entry

/-- The first extra whose name is reserved. -/
def refused? (e : Entry) : Option String :=
  (e.extras.map (·.1)).find? reservedNames.contains

/-- What is said where an extra is refused. -/
def refusalMessage (name : String) : String :=
  "Attempt to overwrite " ++ Text.quote name ++ " in LogRecord"

/-- The fields that every record has. -/
def baseFields (e : Entry) (time message : String) : Entries :=
  [(.text "ts", .text time), (.text "lvl", .text (levelName e.level)), (.text "schema", schema),
    (.text "logger", .text (if e.logger = "" then rootName else e.logger)),
    (.text "message", .text message)]

/-- The extras by name, the last of one name counting in the place of the first. -/
def extraFields (e : Entry) : Entries := Entries.ofList (e.extras.map fun (k, v) => (.text k, v))

/-- All fields of a record. An extra does not replace a base field. -/
def fields (e : Entry) (time message : String) : Entries :=
  let base := e.baseFields time message
  base ++ e.extraFields.filter fun (k, _) => (base.get? k).isNone

/-- The line of a record, if its message can be made and the record can be written. -/
def line? (e : Entry) (bounds : Bounds) (time : String) : Option String :=
  match Template.fill? bounds e.template e.arguments with
  | some message =>
    let record := .map (e.fields time message)
    if bounds.admits e.level && bounds.writable record then some (Json.render .plain record)
    else none
  | none => none

end Entry

end DepGraph.Journal
