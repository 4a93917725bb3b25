import DepGraph.Name
import DepGraph.Typings
import DepGraph.Settings.Options
import DepGraph.Resolution.Inquiry

/-!
# What each kind of specifier asks

* A file reference asks for one address; a bare name starts from the referring file unless the
  options say otherwise.
* A type reference has an address only among the typings packages.
* An import asks for an address. If that is a script, a typings package supersedes it, or else the
  typings that the options or the package's own descriptor give.

`Policy.inquiry` puts the kinds together.
-/

set_option autoImplicit false

namespace DepGraph.Policy

/-- The specifier that is asked for on behalf of a file reference. -/
def referenceSpecifier (options : Options) (text : String) : String :=
  if (Name.isAmbient text && !options.resolveAmbientRefs) || !text.toList.contains '/' then
    "./" ++ text
  else text

/-- A file reference has the address that it asks for. -/
def reference (options : Options) (text : String) : Inquiry String :=
  Inquiry.askAddress (referenceSpecifier options text)

/-- The declaration that an address within a typings package stands for: the suffix of a script is
dropped, and a directory stands for its index. -/
def declarationIn (address : String) : String :=
  let stem := if Name.isScript address then Name.withoutScriptSuffix address else address
  if Name.isDeclaration stem then stem else stem ++ "/index.d.ts"

/-- The declaration of a specifier among the typings packages, if the options allow it there. -/
def typesPackage (options : Options) (text : String) : Inquiry (Option String) :=
  if options.types.contains text then do
    let address ← Inquiry.askAddress ("@types/" ++ text)
    let declaration := declarationIn address
    Inquiry.tell (.typesPackage text declaration)
    return some declaration
  else return none

/-- The typings configured for the package of a specifier, if they count as given: the value
itself for the package as a whole, and `true` for anything within it. -/
def override (options : Options) (text : String) : Option Value :=
  let package := Name.package text
  match options.typingsFor package with
  | some value => if value.truthy then some (if text = package then value else .bool true) else none
  | none => none

/-- The value that stands for the typings of the package of a specifier: the configured one, or
else that of the package's descriptor. -/
def typingsValue (options : Options) (text address : String) : Inquiry Value :=
  match override options text with
  | some value => do
    Inquiry.tell (.overridden text (Name.package text))
    return value
  | none => do
    let descriptor ← Inquiry.askDescriptor address text
    return descriptor.typings

/-- The address that typings give to a specifier whose script is at `address`. -/
def typingsAddress (text address : String) : Typings → Inquiry (Option String)
  | .derived => return some (Name.toDeclaration address)
  | .explicit path => do
    let found ← Inquiry.askAddress (Name.package text ++ "/" ++ Name.withoutRelativeMarker path)
    return some found
  | .absent => return none

/-- The address that the typings of the package of a specifier give it, if any. -/
def packageTypings (options : Options) (text address : String) : Inquiry (Option String) := do
  let value ← typingsValue options text address
  let typings ← Inquiry.ofExcept (Typings.parse value address)
  typingsAddress text address typings

/-- The specifier that is asked for on behalf of an import: relative imports of a declaration file
mean declarations. -/
def importSpecifier (origin text : String) : String :=
  if Name.isRelative text && Name.isDeclaration origin && !Name.isDeclaration text then
    text ++ ".d.ts"
  else text

/-- An address that is there and not empty. -/
def given? (address : Option String) : Option String := address.filter (· ≠ "")

/-- The address of an import. -/
def importTarget (options : Options) (origin text : String) : Inquiry String := do
  let address ← Inquiry.askAddress (importSpecifier origin text)
  if Name.isScript address then
    match given? (← typesPackage options text) with
    | some found => return found
    | none =>
      match given? (← packageTypings options text address) with
      | some found => return found
      | none => return address
  else return address

/-- What a specifier of `origin` asks, and the address it gets, if any. -/
def inquiry (options : Options) (origin : String) (o : Occurrence) : Inquiry (Option String) :=
  match o.kind with
  | .fileReference => do return some (← reference options o.text)
  | .typeReference => typesPackage options o.text
  | .importSpecifier => do return some (← importTarget options origin o.text)
  | .ambientModule => do return some (← importTarget options origin o.text)

end DepGraph.Policy
