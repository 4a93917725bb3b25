/-!
# Names of files and packages

Only the two ends of a name are ever looked at: the first characters tell relative, absolute and
bare names apart, the suffix tells scripts, checkable sources and declarations apart. Whether a
name exists anywhere is not decided here.

A suffix may be followed by one final line break and is compared without regard to case; the long
s counts as an s.

* `Name.cut?` — splits a name at a suffix into stem, suffix as written, and final line break.
* `Name.isScript`, `Name.isSource`, `Name.isDeclaration` — the three suffix classes.
* `Name.toDeclaration`, `Name.withoutScriptSuffix` — change the suffix of a script.
* `Name.package` — the package that owns a specifier.
-/

set_option autoImplicit false

namespace DepGraph.Name

/-! ## Beginnings -/

/-- Names that start from the referring file: `./a`, `../a`, `.hidden`. -/
def isRelative (name : String) : Bool := name.toList.head? == some '.'

/-- Names that start from the root. -/
def isAbsolute (name : String) : Bool := name.toList.head? == some '/'

/-- Bare names such as `lodash` or `ambient/ambient.d.ts`. -/
def isAmbient (name : String) : Bool := !isRelative name && !isAbsolute name

/-- A path without a leading `./`. -/
def withoutRelativeMarker (path : String) : String :=
  match path.toList with
  | '.' :: '/' :: rest => String.ofList rest
  | _ => path

/-! ## Suffixes -/

/-- Whether `c` is the letter or mark `p` of a suffix, in either case. -/
def sameLetter (p c : Char) : Bool :=
  c == p || c == p.toUpper || (p == 's' && c == 'ſ')

/-- Whether the characters spell the suffix. -/
def spells : List Char → List Char → Bool
  | [], [] => true
  | p :: ps, c :: cs => sameLetter p c && spells ps cs
  | _, _ => false

/-- A name without its final line break, and that line break. -/
def splitFinalBreak (name : List Char) : List Char × List Char :=
  if name.getLast? = some '\n' then (name.dropLast, ['\n']) else (name, [])

/-- Splits a name whose end spells the suffix: stem, suffix as written, final line break. -/
def cut? (suffix name : List Char) : Option (List Char × List Char × List Char) :=
  let (body, final) := splitFinalBreak name
  let stem := body.take (body.length - suffix.length)
  let found := body.drop (body.length - suffix.length)
  if spells suffix found then some (stem, found, final) else none

def scriptSuffix : List Char := ['.', 'j', 's']
def sourceSuffixes : List (List Char) := [['.', 't', 's'], ['.', 't', 's', 'x']]
def declarationSuffixes : List (List Char) :=
  [['.', 'd', '.', 't', 's'], ['.', 'd', '.', 't', 's', 'x']]

/-- Names of scripts, which carry no types of their own. -/
def isScript (name : String) : Bool := (cut? scriptSuffix name.toList).isSome

/-- Names of checkable sources, declarations among them. -/
def isSource (name : String) : Bool :=
  sourceSuffixes.any fun suffix => (cut? suffix name.toList).isSome

/-- Names of declaration files. -/
def isDeclaration (name : String) : Bool :=
  declarationSuffixes.any fun suffix => (cut? suffix name.toList).isSome

/-- The name with other characters in place of the suffix of a script. -/
def replaceScriptSuffix (replacement : List Char) (name : String) : String :=
  match cut? scriptSuffix name.toList with
  | some (stem, _, final) => String.ofList (stem ++ replacement ++ final)
  | none => name

/-- The declaration file next to a script: `pkg/pkg.js` gives `pkg/pkg.d.ts`. -/
def toDeclaration (name : String) : String := replaceScriptSuffix ['.', 'd', '.', 't', 's'] name

/-- The name of a script without its suffix. -/
def withoutScriptSuffix (name : String) : String := replaceScriptSuffix [] name

/-! ## Packages -/

/-- The characters before the first slash. -/
def firstSegment (s : List Char) : List Char := s.takeWhile (· != '/')

/-- The characters of a specifier that name its package: the first segment, or the first two where
the first one is a scope. -/
def packageChars (s : List Char) : List Char :=
  let first := firstSegment s
  match first, s.drop first.length with
  | '@' :: _, _ :: rest => first ++ '/' :: firstSegment rest
  | _, _ => first

/-- The package that owns a specifier: `rxjs` for `rxjs/operators`, `@angular/core` for
`@angular/core/testing`. -/
def package (specifier : String) : String := String.ofList (packageChars specifier.toList)

end DepGraph.Name
