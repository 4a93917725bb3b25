import DepGraph.Source.Scan
import DepGraph.Source.Tree

/-!
# The tree of a source text

The tokens of a text are nested by their brackets; in each list of siblings the forms that bear on
dependencies are then recognised from their first word on. Every other token stays a leaf.

Main definitions: `assemble` (recognises the forms among siblings), `outline` (the tree of a text).
-/

set_option autoImplicit false

namespace DepGraph.Source

/-- A node among its siblings before forms are recognised. -/
structure Piece where
  node : Node
  afterBreak : Bool
  deriving Repr

namespace Piece

/-- Whether a piece is the given word. -/
def isWord (p : Piece) (text : String) : Bool := p.node.kind == .leaf .word && p.node.text == text

/-- Whether a piece is the given mark. -/
def isMark (p : Piece) (text : String) : Bool := p.node.kind == .leaf .mark && p.node.text == text

/-- Whether a piece is a bracketed group. -/
def isGroup (p : Piece) (bracket : Bracket) : Bool := p.node.kind == .group bracket

end Piece

/-- The comments at the start, and the pieces after them. -/
def splitComments (ps : List Piece) : List Node × List Piece :=
  (ps.takeWhile (·.node.isComment) |>.map (·.node), ps.dropWhile (·.node.isComment))

/-- A form that was recognised: its node, and the pieces after it. -/
abbrev Form := Node × List Piece

/-- The argument list of a call, from the parts in its parentheses. Strings and comments are direct
children; what stands between two commas is otherwise one expression. -/
def argumentsNode (parts : List Node) : Node :=
  .mk (some .arguments) .arguments "" (go [] parts)
where
  /-- The argument whose parts, last first, are given. -/
  close (parts : List Node) : List Node :=
    match parts with
    | [] => []
    | [n] => if n.isString then [n] else [.ofParts .expression [n]]
    | parts => [.ofParts .expression parts.reverse]
  /-- The arguments after the parts, last first, of the one that has begun. -/
  go (begun : List Node) : List Node → List Node
    | [] => close begun
    | n :: ns =>
      if n.isComment then
        if begun.isEmpty || begun.all Node.isString then close begun ++ n :: go [] ns
        else go (n :: begun) ns
      else if n.kind == .leaf .mark && n.text == "," then close begun ++ go [] ns
      else go (n :: begun) ns

/-- The rest of an import call after its keyword: the pieces up to the parenthesis, which may be
comments and type arguments, then the argument list. -/
def callRest? (depth : Nat) (gap : List Node) : List Piece → Option (List Node × Form)
  | [] => none
  | p :: ps =>
    if p.node.isComment then callRest? depth (p.node :: gap) ps
    else if depth == 0 && p.isGroup .round then
      some (gap.reverse, argumentsNode p.node.children, ps)
    else if p.isMark "<" then callRest? (depth + 1) (p.node :: gap) ps
    else if depth == 0 then none
    else if p.isMark ">" then callRest? (depth - 1) (p.node :: gap) ps
    else callRest? depth (p.node :: gap) ps

/-- The call of the import keyword. -/
def importCall? (keyword : Node) (ps : List Piece) : Option Form := do
  let (gap, arguments, rest) ← callRest? 0 [] ps
  let keyword := Node.mk (some .function) .importKeyword keyword.text []
  some (.ofParts .call (keyword :: gap ++ [arguments]), rest)

/-- The clause `name = require(...)` after its name and its equals sign. -/
def requireClause? (clause : List Node) (ps : List Piece) : Option Form :=
  let (before, ps) := splitComments ps
  match ps with
  | p :: ps =>
    if p.isWord "require" then
      let (between, ps) := splitComments ps
      match ps with
      | group :: ps =>
        if group.isGroup .round then
          some (.ofParts .requireClause
            (clause ++ before ++ p.node :: between ++ group.node.children), ps)
        else none
      | [] => none
    else none
  | [] => none

/-- The rest of an import statement after its keyword. `clause` holds the parts that were read, last
first, and `fromRead` tells whether a source may follow them. -/
def importRest? (keyword : Node) (clause : List Node) (fromRead : Bool) : List Piece → Option Form
  | [] => none
  | p :: ps =>
    if p.node.isComment then importRest? keyword (p.node :: clause) fromRead ps
    else if p.node.isString then
      if fromRead then
        some (.ofParts .importStatement (keyword :: clause.reverse ++ [p.node.inRole .source]), ps)
      else none
    else if p.isMark "=" then
      -- a member that is named like the keyword may be given a value, but no name stands before
      if clause.all Node.isComment then none
      else
        match requireClause? (clause.reverse ++ [p.node]) ps with
        | some (requires, rest) => some (.ofParts .importStatement [keyword, requires], rest)
        | none => none
    else if p.node.kind == .leaf .word then
      importRest? keyword (p.node :: clause) (p.isWord "from") ps
    else if p.isMark "," || p.isMark "*" || p.isGroup .curly then
      importRest? keyword (p.node :: clause) false ps
    else none

/-- The source of an export statement after its clause. -/
def exportSource? (parts : List Node) (ps : List Piece) : Option Form :=
  let (before, ps) := splitComments ps
  match ps with
  | p :: ps =>
    if p.isWord "from" then
      let (between, ps) := splitComments ps
      match ps with
      | string :: ps =>
        if string.node.isString then
          some (.ofParts .exportStatement
            (parts ++ before ++ p.node :: between ++ [string.node.inRole .source]), ps)
        else none
      | [] => none
    else none
  | [] => none

/-- The clause of an export statement and its source: names in braces, or a star that may be given a
name. -/
def exportClause? (parts : List Node) (ps : List Piece) : Option Form :=
  let (before, ps) := splitComments ps
  match ps with
  | p :: ps =>
    if p.isGroup .curly then exportSource? (parts ++ before ++ [p.node]) ps
    else if p.isMark "*" then
      let parts := parts ++ before ++ [p.node]
      let (between, named) := splitComments ps
      match named with
      | as :: named =>
        if as.isWord "as" then
          let (after, named) := splitComments named
          match named with
          | name :: rest => exportSource? (parts ++ between ++ as.node :: after ++ [name.node]) rest
          | [] => none
        else exportSource? parts ps
      | [] => none
    else none
  | [] => none

/-- An export statement that names a source. -/
def exportStatement? (keyword : Node) (ps : List Piece) : Option Form :=
  match exportClause? [keyword] ps with
  | some form => some form
  | none =>
    let (before, ps) := splitComments ps
    match ps with
    | p :: ps => if p.isWord "type" then exportClause? (keyword :: before ++ [p.node]) ps else none
    | [] => none

/-- The declaration of an ambient module with a string as its name. The word `module` has to stand
on the line of `declare`. -/
def ambientModule? (keyword : Node) (ps : List Piece) : Option Form :=
  let (before, ps) := splitComments ps
  match ps with
  | p :: ps =>
    if p.isWord "module" && !p.afterBreak then
      let (between, ps) := splitComments ps
      match ps with
      | name :: ps =>
        if name.node.isString then
          let parts := p.node :: between ++ [name.node.inRole .name]
          let declared (module : List Node) := Node.ofParts .ambientDeclaration
            (keyword :: before ++ [.ofParts .module module])
          let (after, rest) := splitComments ps
          match rest with
          | body :: rest =>
            if body.isGroup .curly then some (declared (parts ++ after ++ [body.node]), rest)
            else some (declared parts, ps)
          | [] => some (declared parts, ps)
        else none
      | [] => none
    else none
  | [] => none

/-- The form that starts with a word. -/
def form? (keyword : Piece) (ps : List Piece) : Option Form :=
  if keyword.isWord "import" then
    (importCall? keyword.node ps).or (importRest? keyword.node [] true ps)
  else if keyword.isWord "export" then exportStatement? keyword.node ps
  else if keyword.isWord "declare" then ambientModule? keyword.node ps
  else none

/-- The nodes of a list of siblings. `member` tells that the piece before names a member of
something, so that the next word starts no form. Each form takes at least one piece, so that a
`fuel` of the number of pieces suffices. -/
def assemble : Nat → Bool → List Piece → List Node
  | 0, _, _ => []
  | _ + 1, _, [] => []
  | fuel + 1, member, p :: ps =>
    match if member then none else form? p ps with
    | some (node, rest) => node :: assemble fuel false rest
    | none =>
      p.node :: assemble fuel (p.isMark "." || (member && p.node.isComment)) ps

/-- A group that is still open: its bracket, whether it stands after a line break, and the pieces
before it, last first. -/
structure OpenGroup where
  bracket : Bracket
  afterBreak : Bool
  before : List Piece
  deriving Repr

/-- The nodes of pieces given last first. -/
def siblings (pieces : List Piece) : List Node := assemble pieces.length false pieces.reverse

/-- The pieces that remain when all open groups are closed. -/
def closeAll (pieces : List Piece) : List OpenGroup → List Piece
  | [] => pieces
  | g :: gs =>
    closeAll (⟨.ofParts (.group g.bracket) (siblings pieces), g.afterBreak⟩ :: g.before) gs

/-- Nests tokens by their brackets. `pieces` holds what was read of the innermost open group, last
first. -/
def nest (pieces : List Piece) (groups : List OpenGroup) : List Token → List Node
  | [] => siblings (closeAll pieces groups)
  | t :: ts =>
    match t.kind with
    | .opening bracket => nest [] (⟨bracket, t.afterBreak, pieces⟩ :: groups) ts
    | .closing _ =>
      match groups with
      | g :: gs =>
        nest (⟨.ofParts (.group g.bracket) (siblings pieces), g.afterBreak⟩ :: g.before) gs ts
      | [] => nest (⟨.leaf t, t.afterBreak⟩ :: pieces) [] ts
    | _ => nest (⟨.leaf t, t.afterBreak⟩ :: pieces) groups ts

/-- The tree of a source text. -/
def outline (text : String) : Node := .ofParts .program (nest [] [] (tokens text))

end DepGraph.Source
