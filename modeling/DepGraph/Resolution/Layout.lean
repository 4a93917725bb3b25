import DepGraph.Path

/-!
# A fixed layout of addresses

`Layout.address` gives every specifier an address without looking anything up. Absolute specifiers
are their own address, relative ones are followed from the directory of the referring file, and
bare ones live in a directory `resolved` next to it. A last segment without a dot gets a suffix.
-/

set_option autoImplicit false

namespace DepGraph.Layout

/-- A suffix for a name whose last segment has no dot. -/
def withSuffix (suffix name : List Char) : List Char :=
  if (Path.lastSegment name).contains '.' then name else name ++ suffix

/-- The address of a bare specifier: a package stands for the script of its own name. -/
def bare (base specifier : List Char) : List Char :=
  let inside := base ++ "/resolved/".toList ++ specifier
  let whole := if specifier.contains '/' then inside else inside ++ '/' :: specifier
  withSuffix ['.', 'j', 's'] whole

/-- The address of a specifier of `origin`. -/
def address (specifier origin : String) : String :=
  let s := specifier.toList
  let base := Path.directory origin.toList
  let place := match s with
    | '/' :: _ => s
    | '.' :: _ => '/' :: Path.normal (base ++ '/' :: s)
    | _ => bare base s
  String.ofList (withSuffix ['.', 't', 's'] place)

end DepGraph.Layout
