import DepGraph.Source.Tree
import DepGraph.Specifier.Basic
import DepGraph.Text.Blank
import DepGraph.Text.Word

/-!
# Reference directives

A comment in the block before the first statement may hold a directive, a tag `<reference ... />`
after three slashes whose attributes name a file, a type package, or the standard library.

Main definitions: `tagBody?` (what a comment's tag holds), `attributes` (the attributes in it),
`Directive.ofComment?`, `leadingComments` (the comments before the first statement).
-/

set_option autoImplicit false

namespace DepGraph.Source

open DepGraph.Text

/-- A name with its value. -/
structure Attribute where
  name : List Char
  value : List Char
  deriving DecidableEq, Repr

/-- The characters of attribute names. -/
def isAttributeChar (c : Char) : Bool := isWord c || c == '-'

/-- The text after an opening that has to stand at the start. -/
def dropOpening? : List Char → List Char → Option (List Char)
  | [], s => some s
  | c :: cs, d :: s => if c == d then dropOpening? cs s else none
  | _ :: _, [] => none

/-- What stands in the tag of a comment: the text between `<reference` with its blanks and the first
`>`, less one slash directly before that. -/
def tagBody? (comment : List Char) : Option (List Char) := do
  let s ← dropOpening? ['/', '/', '/'] comment
  let s ← dropOpening? "<reference".toList (s.dropWhile isBlank)
  let body := s.dropWhile isBlank
  if (s.head?.map isBlank).getD false && body.contains '>' then
    let held := body.takeWhile (· != '>')
    some (if held.getLast? == some '/' then held.dropLast else held)
  else none

/-- The quoted value after a name, with the text after it. -/
def quotedValue? (s : List Char) : Option (List Char × List Char) :=
  match s.dropWhile isBlank with
  | '=' :: s =>
    match s.dropWhile isBlank with
    | quote :: s =>
      if quote == '"' || quote == '\'' then
        match s.span (· != quote) with
        | (value, _ :: rest) => some (value, rest)
        | (_, []) => none
      else none
    | [] => none
  | _ => none

/-- The attributes of a tag in source order. What is no attribute is passed over. Each step passes
at least one character, so that a `fuel` of the length of the text suffices. -/
def attributesFrom : Nat → List Char → List Attribute
  | 0, _ => []
  | _ + 1, [] => []
  | fuel + 1, c :: s =>
    if isAttributeChar c then
      let (name, rest) := (c :: s).span isAttributeChar
      match quotedValue? rest with
      | some (value, rest) => ⟨name, value⟩ :: attributesFrom fuel rest
      | none => attributesFrom fuel rest
    else attributesFrom fuel s

/-- The attributes of a tag in source order. -/
def attributes (body : List Char) : List Attribute := attributesFrom body.length body

/-- The last value of a name. -/
def attributeValue? (attributes : List Attribute) (name : String) : Option (List Char) :=
  (attributes.reverse.find? (·.name == name.toList)).map (·.value)

/-- What a directive refers to. -/
inductive Directive where
  | file (path : String)
  | types (name : String)
  | standardLibrary
  deriving DecidableEq, Repr

namespace Directive

/-- The directive of a tag. A path goes before types, and types before the standard library. -/
def ofAttributes? (attributes : List Attribute) : Option Directive :=
  match attributeValue? attributes "path" with
  | some path => some (.file (String.ofList path))
  | none =>
    match attributeValue? attributes "types" with
    | some name => some (.types (String.ofList name))
    | none =>
      match attributeValue? attributes "no-default-lib" with
      | some value =>
        if value.map Char.toLower == "true".toList then some .standardLibrary else none
      | none => none

/-- The directive of a comment. -/
def ofComment? (comment : String) : Option Directive := do
  ofAttributes? (attributes (← tagBody? comment.toList))

/-- The path of a file that a directive refers to. -/
def file? : Directive → Option String
  | file path => some path
  | _ => none

/-- The types that a directive refers to. -/
def types? : Directive → Option String
  | types name => some name
  | _ => none

end Directive

/-- The comments before the first statement of a text; the line that names an interpreter is passed
over. -/
def leadingComments : List Node → List String
  | [] => []
  | n :: ns =>
    if n.kind == .leaf .hashBang then leadingComments ns
    else if n.kind == .leaf .comment then n.text :: leadingComments ns
    else []

/-- The directives of a source tree, in source order. -/
def directives (root : Node) : List Directive :=
  (leadingComments root.children).filterMap Directive.ofComment?

/-- Records directives. -/
def recordDirectives (ds : List Directive) (e : Extraction) : Extraction :=
  { e with
    fileReferences := e.fileReferences ++ ds.filterMap Directive.file?
    typeReferences := e.typeReferences ++ ds.filterMap Directive.types?
    isLib := e.isLib || ds.contains .standardLibrary }

end DepGraph.Source
