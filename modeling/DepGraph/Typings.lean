import DepGraph.Fault

/-!
# How a package declares its typings

`Typings.parse` reads the value that a package descriptor or an option gives for `typings`.
-/

set_option autoImplicit false

namespace DepGraph

/-- Where the declarations of a package are. -/
inductive Typings where
  /-- There are none: the script stands for itself. -/
  | absent
  /-- Next to the script. -/
  | derived
  /-- At a path within the package. -/
  | explicit (path : String)
  deriving DecidableEq, Repr

/-- `true` means next to the script, a text is a path, and a value that does not count as given
means none. Anything else is a fault of the script at `address`. -/
def Typings.parse (value : Value) (address : String) : Except Fault Typings :=
  match value with
  | .bool true => .ok .derived
  | .text path => .ok (.explicit path)
  | v => if v.truthy then .error (.badTypings v address) else .ok .absent

end DepGraph
