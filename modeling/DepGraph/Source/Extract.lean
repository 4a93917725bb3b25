import DepGraph.Source.Directive
import DepGraph.Source.Outline

/-!
# Extracting specifiers

`extract` reads the specifiers of all four kinds off a source text. Imports and ambient modules are
found by visiting every node of the tree, each before its parts and these from left to right.

Main definitions: `Node.finding?` (what one node contributes), `visit` (goes through a stack of
nodes still to be visited), `Node.findings` (the same by recursion), `extract`.
-/

set_option autoImplicit false

namespace DepGraph.Source

/-- What a node contributes. -/
inductive Finding where
  | imported (specifier : String)
  | ambient (name : String)
  deriving DecidableEq, Repr

namespace Finding

/-- The specifier of an import. -/
def imported? : Finding → Option String
  | imported specifier => some specifier
  | ambient _ => none

/-- The name of an ambient module. -/
def ambient? : Finding → Option String
  | ambient name => some name
  | imported _ => none

end Finding

namespace Node

/-- A node that is a string literal. -/
def asString? (n : Node) : Option Node := if n.isString then some n else none

/-- The string literal that names what a node imports: the source of an import or export statement,
the string of a clause that requires, or the only argument of a call of the import keyword. -/
def importedString? (n : Node) : Option Node :=
  match n.kind with
  | .importStatement | .exportStatement => n.child? .source >>= asString?
  | .requireClause => n.firstOf? (.leaf .string)
  | .call =>
    match n.child? .function, n.child? .arguments with
    | some function, some arguments =>
      if function.kind == .importKeyword && arguments.namedChildren.length == 1 then
        arguments.firstOf? (.leaf .string)
      else none
    | _, _ => none
  | _ => none

/-- The string literal that names the ambient module a node declares. -/
def ambientString? (n : Node) : Option Node :=
  match n.kind with
  | .ambientDeclaration => n.firstOf? .module >>= (·.child? .name) >>= asString?
  | _ => none

/-- What a node contributes by itself. -/
def finding? (n : Node) : Option Finding :=
  match n.ambientString? with
  | some s => some (.ambient s.stringText)
  | none => n.importedString?.map fun s => .imported s.stringText

/-- What a tree contributes, each node before its parts and these from left to right. -/
def findings : Node → List Finding
  | mk role kind text children => (mk role kind text children).finding?.toList ++ all children
where
  /-- What several trees contribute. -/
  all : List Node → List Finding
    | [] => []
    | n :: ns => n.findings ++ all ns

end Node

/-- What the trees on a stack contribute. A node is taken off the stack, and its parts are put in
its place. -/
def visit : List Node → List Finding
  | [] => []
  | n :: stack => n.finding?.toList ++ visit (n.children ++ stack)
termination_by stack => Node.size.total stack
decreasing_by
  rw [Node.total_append, Node.size.total, Node.size_eq]
  omega

/-- Records findings. -/
def recordFindings (fs : List Finding) (e : Extraction) : Extraction :=
  { e with
    imports := e.imports ++ fs.filterMap Finding.imported?
    ambientModules := e.ambientModules ++ fs.filterMap Finding.ambient? }

/-- The specifiers of a source tree. -/
def Node.extract (root : Node) : Extraction :=
  recordFindings (visit [root]) (recordDirectives (directives root) {})

/-- The specifiers of a source text. -/
def extract (text : String) : Extraction := (outline text).extract

end DepGraph.Source
