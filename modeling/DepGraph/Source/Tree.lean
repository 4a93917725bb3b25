import DepGraph.Source.Token

/-!
# Source trees

A source text as a tree. The nodes that bear on dependencies have kinds of their own and name the
roles of their children; all other structure is kept as the nesting of brackets.

Main definitions: `Node`, `Node.child?` (the child in a role), `Node.firstOf?` (the first named child
of a kind), `Node.size`.
-/

set_option autoImplicit false

namespace DepGraph.Source

/-- The roles of a child. -/
inductive Role where
  | source
  | function
  | arguments
  | name
  deriving DecidableEq, Repr

/-- The kinds of node. `expression` is an argument of a call that is neither a string nor a
comment. -/
inductive NodeKind where
  | program
  | importStatement
  | exportStatement
  | requireClause
  | call
  | importKeyword
  | arguments
  | ambientDeclaration
  | module
  | expression
  | group (bracket : Bracket)
  | leaf (kind : TokenKind)
  deriving DecidableEq, Repr

/-- A part of a source text: its role in its parent, its kind, its text if it is a single token, and
its parts in source order. -/
inductive Node where
  | mk (role : Option Role) (kind : NodeKind) (text : String) (children : List Node)
  deriving Repr

namespace Node

/-- The role of a node in its parent. -/
def role : Node → Option Role
  | mk role _ _ _ => role

def kind : Node → NodeKind
  | mk _ kind _ _ => kind

/-- The text of a node of one token. -/
def text : Node → String
  | mk _ _ text _ => text

/-- The parts of a node in source order. -/
def children : Node → List Node
  | mk _ _ _ children => children

/-- A node without a role. -/
def ofParts (kind : NodeKind) (children : List Node) : Node := mk none kind "" children

/-- The node of one token. -/
def leaf (t : Token) : Node := mk none (.leaf t.kind) t.text []

/-- The same node in a role. -/
def inRole (role : Role) : Node → Node
  | mk _ kind text children => mk (some role) kind text children

/-- Whether a node is a string literal. -/
def isString (n : Node) : Bool := n.kind == .leaf .string

/-- Whether a node is a comment. -/
def isComment (n : Node) : Bool := n.kind == .leaf .comment || n.kind == .leaf .htmlComment

/-- Whether a node stands for more than punctuation. -/
def isNamed (n : Node) : Bool :=
  match n.kind with
  | .leaf .mark | .leaf (.opening _) | .leaf (.closing _) => false
  | _ => true

/-- The parts of a node without the punctuation between them. -/
def namedChildren (n : Node) : List Node := n.children.filter isNamed

/-- The first child in a role. -/
def child? (n : Node) (role : Role) : Option Node := n.children.find? (·.role == some role)

/-- The first named child of a kind. -/
def firstOf? (n : Node) (kind : NodeKind) : Option Node := n.namedChildren.find? (·.kind == kind)

/-- The number of nodes of a tree. -/
def size : Node → Nat
  | mk _ _ _ children => 1 + total children
where
  /-- The number of nodes of several trees. -/
  total : List Node → Nat
    | [] => 0
    | n :: ns => n.size + total ns

/-- The nodes of several trees together. -/
theorem total_append (xs ys : List Node) :
    size.total (xs ++ ys) = size.total xs + size.total ys := by
  induction xs with
  | nil => simp [size.total]
  | cons x xs ih => simp [size.total, ih, Nat.add_assoc]

/-- A tree has one node more than its parts together. -/
theorem size_eq (n : Node) : n.size = 1 + size.total n.children := by
  cases n
  simp [size, children]

/-- What a string literal holds between its quotation marks, its escapes as they are written. -/
def stringText (n : Node) : String := String.ofList (n.text.toList.drop 1).dropLast

end Node

end DepGraph.Source
