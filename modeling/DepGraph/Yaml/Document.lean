import DepGraph.Yaml.PlainTag
import DepGraph.Yaml.TokenStream

/-!
# Reading the nodes of a document

The tokens of a text are read into the node of its only document. An alias stands for the node that
carries its anchor; anchors are given once and have to be given before they are used.

Main definitions: `Supply` (the tokens to be read, with handles and anchors), `Read.node`,
`Node.ofTokens?`.
-/

set_option autoImplicit false

namespace DepGraph.Yaml

/-- What remains to be read, the tag handles in force, and the nodes that carry anchors. The node
of a collection is not known before its end. -/
structure Supply where
  stream : TokenStream
  handles : List (String × String) := []
  anchors : List (String × Option Node) := []

/-- Reading of a part of a document. -/
abbrev Read := StateT Supply (Except Failure)

namespace Read

/-- The next token. -/
def peek : Read Token := do
  let supply ← get
  match supply.stream.tokens with
  | t :: _ => return t
  | [] => throw supply.stream.failure

/-- Passes over the next token. -/
def advance : Read Unit :=
  modify fun s => { s with stream := { s.stream with tokens := s.stream.tokens.drop 1 } }

/-- Takes the next token. -/
def next : Read Token := do
  let t ← peek
  advance
  return t

/-- Passes over a token that has to stand here. -/
def expect (t : Token) : Read Unit := do
  if (← peek) == t then advance else throw .malformed

/-! ## Properties of nodes -/

/-- The full name of a tag. -/
def fullName (t : WrittenTag) : Read String := do
  match t.handle with
  | none => return t.suffix
  | some handle =>
    match (← get).handles.lookup handle with
    | some stem => return stem ++ t.suffix
    | none => throw .malformed

/-- An anchor and a tag in either order, the tag by its full name. -/
def properties : Read (Option String × Option String) := do
  match ← peek with
  | .anchor name =>
    advance
    match ← peek with
    | .tag t => advance; return (some name, some (← fullName t))
    | _ => return (some name, none)
  | .tag t =>
    advance
    match ← peek with
    | .anchor name => advance; return (some name, some (← fullName t))
    | _ => return (none, some (← fullName t))
  | _ => return (none, none)

/-- Gives an anchor to a node, or to a collection whose node is not known yet. -/
def mark (anchor : Option String) (node : Option Node) : Read Unit :=
  match anchor with
  | some name => modify fun s => { s with anchors := (name, node) :: s.anchors }
  | none => return

/-- The node of an alias. -/
def aliased (name : String) : Read Node := do
  match (← get).anchors.lookup name with
  | some (some node) => return node
  | some none => return .enclosing
  | none => throw .malformed

/-- The tag of a scalar. The tag `!` asks for the one that the text suggests. -/
def scalarTag (name : Option String) (text : String) (plain : Bool) : Tag :=
  match name with
  | none => if plain then .ofPlain text else .text
  | some name => if name == "!" then .ofPlain text else .ofName name

/-- The tag of a collection. -/
def collectionTag (name : Option String) (default : Tag) : Tag :=
  match name with
  | none => default
  | some name => if name == "!" then default else .ofName name

/-- The node where none is written. -/
def absent : Node := .scalar .null ""

/-! ## Nodes -/

mutual

/-- A node. `block` allows block collections, `indentless` a sequence that starts with a dash at the
indentation of its parent. `fuel` bounds the nesting and the number of parts. -/
def node (block indentless : Bool) : Nat → Read Node
  | 0 => throw .malformed
  | fuel + 1 => do
    if let .alias name ← peek then
      advance
      return ← aliased name
    let (anchor, tag) ← properties
    let t ← peek
    if let some name := anchor then
      if ((← get).anchors.lookup name).isSome then throw .malformed
    match t with
    | .scalar text plain =>
      advance
      let n := Node.scalar (scalarTag tag text plain) text
      mark anchor (some n)
      return n
    | .flowSequenceStart =>
      advance
      mark anchor none
      let n := Node.sequence (collectionTag tag .sequence) (← flowItems true fuel)
      mark anchor (some n)
      return n
    | .flowMappingStart =>
      advance
      mark anchor none
      let n := Node.mapping (collectionTag tag .mapping) (← flowEntries true fuel)
      mark anchor (some n)
      return n
    | t =>
      if indentless && t == .blockEntry then
        mark anchor none
        let n := Node.sequence (collectionTag tag .sequence) (← indentlessItems fuel)
        mark anchor (some n)
        return n
      else if block && t == .blockSequenceStart then
        advance
        mark anchor none
        let n := Node.sequence (collectionTag tag .sequence) (← blockItems fuel)
        mark anchor (some n)
        return n
      else if block && t == .blockMappingStart then
        advance
        mark anchor none
        let n := Node.mapping (collectionTag tag .mapping) (← blockEntries fuel)
        mark anchor (some n)
        return n
      else if anchor.isSome || tag.isSome then
        let n := Node.scalar (scalarTag tag "" true) ""
        mark anchor (some n)
        return n
      else throw .malformed

/-- A node, or none where one of the given tokens follows. -/
def nodeUnless (ends : List Token) (block indentless : Bool) : Nat → Read Node
  | 0 => throw .malformed
  | fuel + 1 => do
    if ends.contains (← peek) then return absent else node block indentless fuel

/-- The items of a block sequence, with its end. -/
def blockItems : Nat → Read (List Node)
  | 0 => throw .malformed
  | fuel + 1 => do
    match ← next with
    | .blockEntry =>
      let item ← nodeUnless [.blockEntry, .blockEnd] true false fuel
      return item :: (← blockItems fuel)
    | .blockEnd => return []
    | _ => throw .malformed

/-- The items of a sequence without an indentation of its own. -/
def indentlessItems : Nat → Read (List Node)
  | 0 => throw .malformed
  | fuel + 1 => do
    match ← peek with
    | .blockEntry =>
      advance
      let item ← nodeUnless [.blockEntry, .key, .value, .blockEnd] true false fuel
      return item :: (← indentlessItems fuel)
    | _ => return []

/-- The entries of a block mapping, with its end. -/
def blockEntries : Nat → Read (List (Node × Node))
  | 0 => throw .malformed
  | fuel + 1 => do
    match ← next with
    | .key =>
      let key ← nodeUnless [.key, .value, .blockEnd] true true fuel
      let value ← entryValue [.key, .value, .blockEnd] true fuel
      return (key, value) :: (← blockEntries fuel)
    | .blockEnd => return []
    | _ => throw .malformed

/-- The value of an entry, which may have none. -/
def entryValue (ends : List Token) (block : Bool) : Nat → Read Node
  | 0 => throw .malformed
  | fuel + 1 => do
    if (← peek) == .value then
      advance
      nodeUnless ends block block fuel
    else return absent

/-- The items of a sequence in brackets, with its end. An item may be a single entry. -/
def flowItems (first : Bool) : Nat → Read (List Node)
  | 0 => throw .malformed
  | fuel + 1 => do
    if (← peek) == .flowSequenceEnd then
      advance
      return []
    if !first then expect .flowEntry
    match ← peek with
    | .key =>
      advance
      let key ← nodeUnless [.value, .flowEntry, .flowSequenceEnd] false false fuel
      let value ← entryValue [.flowEntry, .flowSequenceEnd] false fuel
      return .mapping .mapping [(key, value)] :: (← flowItems false fuel)
    | .flowSequenceEnd =>
      advance
      return []
    | _ =>
      let item ← node false false fuel
      return item :: (← flowItems false fuel)

/-- The entries of a mapping in braces, with its end. An entry may have a key only. -/
def flowEntries (first : Bool) : Nat → Read (List (Node × Node))
  | 0 => throw .malformed
  | fuel + 1 => do
    if (← peek) == .flowMappingEnd then
      advance
      return []
    if !first then expect .flowEntry
    match ← peek with
    | .key =>
      advance
      let key ← nodeUnless [.value, .flowEntry, .flowMappingEnd] false false fuel
      let value ← entryValue [.flowEntry, .flowMappingEnd] false fuel
      return (key, value) :: (← flowEntries false fuel)
    | .flowMappingEnd =>
      advance
      return []
    | _ =>
      let key ← node false false fuel
      return (key, absent) :: (← flowEntries false fuel)

end

/-! ## Documents -/

/-- The handles that every document has. -/
def defaultHandles : List (String × String) := [("!", "!"), ("!!", "tag:yaml.org,2002:")]

/-- The directives of a document. A version is given at most once and is of the first series, a
handle at most once. -/
def directives (versioned : Bool) : Nat → Read Unit
  | 0 => throw .malformed
  | fuel + 1 => do
    match ← peek with
    | .directive (.version major) =>
      advance
      if versioned || major != 1 then throw .malformed
      directives true fuel
    | .directive (.tagHandle handle stem) =>
      advance
      if ((← get).handles.lookup handle).isSome then throw .malformed
      modify fun s => { s with handles := (handle, stem) :: s.handles }
      directives versioned fuel
    | .directive .other =>
      advance
      directives versioned fuel
    | _ => modify fun s => { s with handles := s.handles ++ defaultHandles }

/-- Whether a token starts a document that is set off from what is before it, or ends the text. -/
def isBoundary : Token → Bool
  | .directive _ | .documentStart | .streamEnd => true
  | _ => false

/-- The content of the only document of a text, if there is one. -/
def document (fuel : Nat) : Read (Option Node) := do
  let t ← peek
  if t == .streamEnd then return none
  if isBoundary t then
    directives false fuel
    expect .documentStart
    let t ← peek
    if isBoundary t || t == .documentEnd then return some absent
  else modify fun s => { s with handles := defaultHandles }
  return some (← node true false fuel)

/-- The end of the only document of a text. -/
def finish : Nat → Read Unit
  | 0 => throw .malformed
  | fuel + 1 => do
    match ← next with
    | .documentEnd => finish fuel
    | .streamEnd => return
    | _ => throw .malformed

end Read

/-- The node of the only document that tokens make up, if there is one. -/
def Node.ofTokens? (stream : TokenStream) : Except Failure (Option Node) := do
  let fuel := 4 * stream.tokens.length + 8
  let (found, supply) ← (Read.document fuel).run { stream }
  if found.isSome then
    let _ ← (Read.finish fuel).run supply
  return found

end DepGraph.Yaml
