import DepGraph.Text.Base64
import DepGraph.Value.Entries
import DepGraph.Yaml.Calendar
import DepGraph.Yaml.Document
import DepGraph.Yaml.Number

/-!
# The value of a document

The value of a node is told by its tag. Where several parts of a document have no value, the one
that is nested least counts, and the first of those.

Main definitions: `Outcome` (a value, or a failure with its depth), `mergedEntries` (the entries
of a mapping with those that it merges), `Node.value`, `Yaml.read`.
-/

set_option autoImplicit false

namespace DepGraph.Yaml

/-- A failure and how deep it is nested. -/
structure Located where
  depth : Nat
  failure : Failure
  deriving Repr

/-- A value, or the failure that counts. -/
abbrev Outcome (α : Type) := Except Located α

namespace Outcome

variable {α β : Type}

/-- Two outcomes together. Of two failures the one that is nested less counts, or else the first. -/
def both (a : Outcome α) (b : Outcome β) : Outcome (α × β) :=
  match a, b with
  | .ok x, .ok y => .ok (x, y)
  | .ok _, .error g => .error g
  | .error f, .ok _ => .error f
  | .error f, .error g => .error (if g.depth < f.depth then g else f)

/-- Several outcomes together. -/
def all : List (Outcome α) → Outcome (List α)
  | [] => .ok []
  | x :: xs => (both x (all xs)).map fun (y, ys) => y :: ys

end Outcome

/-! ## Merging -/

/-- A node that stands for itself as a key, even if its text is the sign for a value. -/
def asKey : Node → Node
  | .scalar .value text => .scalar .text text
  | .sequence .value items => .sequence .text items
  | .mapping .value entries => .mapping .text entries
  | n => n

mutual

/-- The entries of a mapping, those that it merges first: of several mappings to be merged, the
first has the last word. -/
def mergedEntries : Nat → List (Node × Node) → Option (List (Node × Node))
  | 0, _ => none
  | fuel + 1, entries => do
    let mut merged := []
    let mut own := []
    for (key, value) in entries do
      if key.tag == .merge then merged := merged ++ (← mergeSources fuel value)
      else own := own ++ [(asKey key, value)]
    return merged ++ own

/-- The entries that the value of a merge key contributes. -/
def mergeSources : Nat → Node → Option (List (Node × Node))
  | 0, _ => none
  | fuel + 1, source =>
    match source with
    | .mapping _ entries => mergedEntries fuel entries
    | .sequence _ items => do
      let parts ← items.mapM fun item => match item with
        | .mapping _ entries => mergedEntries fuel entries
        | .enclosing => some []
        | _ => none
      return parts.reverse.flatten
    | .enclosing => some []
    | .scalar .. => none

end

/-! ## Scalars -/

/-- The text of a node that is read as a scalar: that of a scalar, or of the value that a mapping
gives for itself. -/
def scalarText? : Nat → Node → Option String
  | 0, _ => none
  | fuel + 1, n =>
    match n with
    | .scalar _ text => some text
    | .mapping _ entries =>
      match entries.find? (·.1.tag == .value) with
      | some (_, value) => scalarText? fuel value
      | none => none
    | _ => none

/-- The truth value that a word stands for. -/
def truthValue (text : String) : Except Failure Bool :=
  let word := String.ofList (text.toList.map Char.toLower)
  if ["yes", "true", "on"].contains word then .ok true
  else if ["no", "false", "off"].contains word then .ok false
  else .error .badWord

/-- The octets that a text encodes. -/
def octets (text : String) : Except Failure (List UInt8) :=
  let s := text.toList
  if s.all (·.toNat < 128) then
    match Text.decodeBase64? s with
    | some found => .ok found
    | none => .error .malformed
  else .error .malformed

/-- The date that a text writes. -/
def date (text : String) : Except Failure Scalar :=
  match Stamp.ofText? (dropFinalBreak text.toList) with
  | some stamp => stamp.value
  | none => .error .badDate

/-- The scalar of a text with a tag. -/
def scalarValue (tag : Tag) (text : String) : Except Failure Scalar :=
  match tag with
  | .null => .ok .null
  | .bool => (truthValue text).map .bool
  | .int => (wholeNumber text).map .int
  | .float => (fraction text).map .real
  | .binary => (octets text).map .bytes
  | .timestamp => date text
  | .text => .ok (.text text)
  | _ => .error .malformed

/-! ## Values -/

/-- Whether a tag is that of a collection. -/
def Tag.isCollection : Tag → Bool
  | .sequence | .mapping | .set | .omap | .pairs => true
  | _ => false

/-- A value that may be a key, which no collection may, whatever its parts. -/
def keyOf (depth : Nat) : Outcome Value → Outcome Scalar
  | .ok (.scalar s) => .ok s
  | .ok _ => .error ⟨depth, .malformed⟩
  | .error f => .error (if depth < f.depth then ⟨depth, .malformed⟩ else f)

/-- The value of a node at a depth. The parts of a collection are one level deeper. A value has an
end: where a collection is a part of itself, it is cut off and an empty list stands. -/
def nodeValue : Nat → Nat → Node → Outcome Value
  | 0, depth, _ => .error ⟨depth, .malformed⟩
  | fuel + 1, depth, n =>
    let inner := depth + 1
    let refused : Outcome Value := .error ⟨inner, .malformed⟩
    let entriesOf (entries : List (Node × Node)) : Outcome Entries :=
      match mergedEntries fuel entries with
      | some entries =>
        (Outcome.all (entries.map fun (k, v) =>
          Outcome.both (keyOf inner (nodeValue fuel inner k)) (nodeValue fuel inner v))).map
            Entries.ofList
      | none => .error ⟨inner, .malformed⟩
    let pairsOf (items : List Node) : Outcome (List Value) :=
      Outcome.all (items.map fun item => match item with
        | .mapping _ [(k, v)] =>
          (Outcome.both (nodeValue fuel inner k) (nodeValue fuel inner v)).map
            fun (k, v) => .list [k, v]
        | _ => refused)
    match n.tag, n with
    | _, .enclosing => .ok (.list [])
    | .sequence, .sequence _ items => (Outcome.all (items.map (nodeValue fuel inner))).map .list
    | .mapping, .mapping _ entries => (entriesOf entries).map .map
    | .set, .mapping _ entries => (entriesOf entries).map fun es => .set es.keys
    | .omap, .sequence _ items => (pairsOf items).map .list
    | .pairs, .sequence _ items => (pairsOf items).map .list
    | tag, n =>
      if tag.isCollection then refused
      else
        match tag, n, scalarText? fuel n with
        | _, _, none => .error ⟨depth, .malformed⟩
        | .timestamp, .mapping .., some _ => .error ⟨depth, .noDate⟩
        | tag, _, some text =>
          match scalarValue tag text with
          | .ok s => .ok (.scalar s)
          | .error f => .error ⟨depth, f⟩

/-! ## Reading -/

/-- The characters that may stand in a document. -/
def isDocumentChar (c : Char) : Bool :=
  let n := c.toNat
  n == 9 || n == 10 || n == 13 || (32 ≤ n && n < 127) || n == 0x85 || (0xA0 ≤ n && n ≤ 0xD7FF) ||
  (0xE000 ≤ n && n ≤ 0xFFFD) || 0x10000 ≤ n

/-- The text with every carriage return, and the line feed that may follow it, as one line feed. -/
def normalizeLines : List Char → List Char
  | '\r' :: '\n' :: s => '\n' :: normalizeLines s
  | '\r' :: s => '\n' :: normalizeLines s
  | c :: s => c :: normalizeLines s
  | [] => []

/-- The value of the only document of a text; a text without a document has the value null. -/
def read (text : String) : Except Failure Value :=
  let s := normalizeLines text.toList
  if s.all isDocumentChar then
    let stream := TokenStream.ofText s
    match Node.ofTokens? stream with
    | .error f => .error f
    | .ok none => .ok .null
    | .ok (some n) =>
      match nodeValue (stream.tokens.length + 2) 0 n with
      | .ok v => .ok v
      | .error located => .error located.failure
  else .error .malformed

end DepGraph.Yaml
