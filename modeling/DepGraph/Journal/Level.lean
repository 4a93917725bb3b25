/-!
# Levels of records

A level is a number; five of them have names, and one can be given by any of eight names in any
case.
-/

set_option autoImplicit false

namespace DepGraph.Journal

/-- The level from which on records are kept at first. -/
def initialLevel : Int := 30

/-- The level that counts where a name is unknown. -/
def defaultLevel : Int := 20

/-- The names of levels. -/
def levelNames : List (String × Int) :=
  [("NOTSET", 0), ("DEBUG", 10), ("INFO", 20), ("WARN", 30), ("WARNING", 30), ("ERROR", 40),
    ("FATAL", 50), ("CRITICAL", 50)]

/-- The large letter of ASCII for a letter; the dotless i and the long s have one too. -/
def upperLetter (c : Char) : Char :=
  if c == 'ı' then 'I' else if c == 'ſ' then 'S' else c.toUpper

/-- The level of a name. -/
def levelOfName (name : String) : Int :=
  (levelNames.lookup (String.ofList (name.toList.map upperLetter))).getD defaultLevel

/-- The name of a level in a record. -/
def levelName (level : Int) : String :=
  if level = 0 then "NOTSET"
  else if level = 10 then "DEBUG"
  else if level = 20 then "INFO"
  else if level = 30 then "WARNING"
  else if level = 40 then "ERROR"
  else if level = 50 then "CRITICAL"
  else "Level " ++ toString level

end DepGraph.Journal
