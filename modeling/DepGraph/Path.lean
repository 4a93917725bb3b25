/-!
# Paths

A path is a list of segments with slashes between them.

* `Path.segments` — the segments of a path; `Path.follow` — where a list of segments leads to.
* `Path.directory`, `Path.lastSegment` — the two parts around the last slash.
-/

set_option autoImplicit false

namespace DepGraph.Path

/-- The characters before the last slash; none if there is no slash. -/
def directory (path : List Char) : List Char :=
  ((path.reverse.dropWhile (· != '/')).drop 1).reverse

/-- The characters after the last slash. -/
def lastSegment (path : List Char) : List Char :=
  (path.reverse.takeWhile (· != '/')).reverse

/-- The segments between slashes. -/
def segments (path : List Char) : List (List Char) := path.splitOn '/'

/-- Follows segments: empty ones and `.` stay, `..` goes up where there is an up. -/
def follow (path : List (List Char)) : List (List Char) :=
  path.foldl (fun acc s =>
    if s = [] ∨ s = ['.'] then acc
    else if s = ['.', '.'] then acc.dropLast
    else acc ++ [s]) []

/-- Segments with slashes between them. -/
def join (path : List (List Char)) : List Char := List.intercalate ['/'] path

/-- The path without empty and single-dot segments, each double-dot segment taking the one before it
away. -/
def normal (path : List Char) : List Char := join (follow (segments path))

end DepGraph.Path
