import DepGraph.Value.Render

/-!
# What can go wrong in a resolution

`Fault` lists the ways in which the resolution of a file fails, `Fault.message` words them. The
injected functions report their own failures as a `Cause`.
-/

set_option autoImplicit false

namespace DepGraph

/-- A failure reported by an injected function: the name of its kind, and its message. -/
structure Cause where
  kind : String
  message : String
  deriving DecidableEq, Repr, Inhabited

/-- The message of a failure, or the name of its kind where there is none. -/
def Cause.reason (c : Cause) : String := if c.message = "" then c.kind else c.message

/-- How the resolution of a file fails. -/
inductive Fault where
  /-- The store does not know the file. -/
  | notAdded (file : String)
  /-- An injected function failed for a specifier. -/
  | unresolved (specifier origin reason : String) (cause : Cause)
  /-- The value given for a package's typings is neither a path nor true. -/
  | badTypings (value : Value) (address : String)
  deriving DecidableEq, Repr

namespace Fault

def notAddedMessage (file : String) : String := "file [" ++ file ++ "] has not been added"

/-- A reason is given after a colon, an empty one not at all. -/
def unresolvedMessage (specifier origin reason : String) : String :=
  "failed to resolve [" ++ specifier ++ "] from [" ++ origin ++ "]" ++
    (if reason = "" then "" else ": " ++ reason)

def badTypingsMessage (value : Value) (address : String) : String :=
  "invalid 'typings' value [" ++ value.message ++ "] [" ++ address ++ "]"

/-- The wording of a fault. -/
def message : Fault → String
  | notAdded file => notAddedMessage file
  | unresolved specifier origin reason _ => unresolvedMessage specifier origin reason
  | badTypings value address => badTypingsMessage value address

end Fault

end DepGraph
