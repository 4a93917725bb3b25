import DepGraph.Yaml.BlockScalar
import DepGraph.Yaml.QuotedScalar

/-!
# The tokens of a document

A key of a mapping is recognised only by the colon after it, so the token that announces a key is
put in front of what was read before. `Candidate` is a token that may turn out to start a key, and
a token is settled once no candidate stands at it.

Main definitions: `Scan` (the state of reading), `Scan.readToken`, `TokenStream.ofText`.
-/

set_option autoImplicit false

namespace DepGraph.Yaml

/-- A token that may start a key: its number, where it stands, and whether a key has to stand
there. -/
structure Candidate where
  number : Nat
  required : Bool
  index : Nat
  line : Nat
  column : Nat
  deriving Repr

/-- The state of reading tokens. -/
structure Scan where
  cursor : Cursor
  /-- The tokens read so far, last first, and how many they are. -/
  tokens : List Token := []
  count : Nat := 0
  /-- The column of the innermost block collection, if there is one. -/
  indent : Option Nat := none
  /-- The columns of the block collections around it. -/
  outer : List (Option Nat) := []
  /-- Whether a key may start here. -/
  keyAllowed : Bool := true
  /-- The candidate inside the innermost brackets. -/
  candidate : Option Candidate := none
  /-- The candidates around each open bracket, the innermost first. -/
  enclosing : List (Option Candidate) := []
  deriving Repr

namespace Scan

/-- Whether brackets are open. -/
def inFlow (s : Scan) : Bool := !s.enclosing.isEmpty

/-- The least column of what belongs to the innermost block collection. -/
def innerColumn (s : Scan) : Nat := (s.indent.map (· + 1)).getD 0

/-- Adds a token. -/
def emit (s : Scan) (t : Token) : Scan := { s with tokens := t :: s.tokens, count := s.count + 1 }

/-- Puts a token before the one of the given number. -/
def emitBefore (s : Scan) (number : Nat) (t : Token) : Scan :=
  let later := s.count - number
  { s with tokens := s.tokens.take later ++ t :: s.tokens.drop later, count := s.count + 1 }

/-- Moves to another place. -/
def moveTo (s : Scan) (c : Cursor) : Scan := { s with cursor := c }

/-! ## Candidates -/

/-- Whether a candidate lies on an earlier line or too far back to be a key. -/
def isStale (s : Scan) (k : Candidate) : Bool :=
  k.line != s.cursor.line || s.cursor.index - k.index > 1024

/-- Gives up a candidate where a key has to stand. -/
def release (k : Option Candidate) : Except Failure Unit :=
  match k with
  | some k => if k.required then .error .malformed else .ok ()
  | none => .ok ()

/-- The candidate that is left when stale ones are given up. -/
def refresh (s : Scan) (k : Option Candidate) : Except Failure (Option Candidate) :=
  match k with
  | some k =>
    if s.isStale k then (release (some k)).map fun _ => none else .ok (some k)
  | none => .ok none

/-- Gives up all stale candidates. -/
def dropStale (s : Scan) : Except Failure Scan := do
  let candidate ← s.refresh s.candidate
  let enclosing ← s.enclosing.mapM s.refresh
  return { s with candidate, enclosing }

/-- Gives up the candidate inside the innermost brackets. -/
def dropCandidate (s : Scan) : Except Failure Scan :=
  (release s.candidate).map fun _ => { s with candidate := none }

/-- Makes the next token a candidate where keys are allowed. -/
def offer (s : Scan) : Except Failure Scan :=
  if s.keyAllowed then
    (release s.candidate).map fun _ =>
      let c := s.cursor
      let required := !s.inFlow && s.indent == some c.column
      { s with candidate := some ⟨s.count, required, c.index, c.line, c.column⟩ }
  else .ok s

/-! ## Indentation -/

/-- Closes block collections as long as the test says so. -/
def unwindWhile (s : Scan) (closes : Nat → Bool) : List (Option Nat) → Scan
  | [] => s
  | next :: outer =>
    match s.indent with
    | some i =>
      if closes i then unwindWhile ({ s with indent := next, outer }.emit .blockEnd) closes outer
      else s
    | none => s

/-- Closes the block collections that stand further right than a column. -/
def unwind (s : Scan) (column : Nat) : Scan :=
  if s.inFlow then s else s.unwindWhile (column < ·) s.outer

/-- Closes all block collections. -/
def unwindAll (s : Scan) : Scan := if s.inFlow then s else s.unwindWhile (fun _ => true) s.outer

/-- Whether a block collection would start at a column. -/
def opensAt (s : Scan) (column : Nat) : Bool := !s.inFlow && s.innerColumn ≤ column

/-- Starts a block collection at a column. -/
def indentTo (s : Scan) (column : Nat) : Scan :=
  { s with indent := some column, outer := s.indent :: s.outer }

/-- Starts a block collection here, where one would start. -/
def openBlock (s : Scan) (start : Token) : Scan :=
  let column := s.cursor.column
  if s.opensAt column then (s.indentTo column).emit start else s

/-! ## The kinds of token -/

/-- The end of the text. -/
def endStream (s : Scan) : Except Failure Scan := do
  let s ← s.unwindAll.dropCandidate
  return s.emit .streamEnd

/-- A directive. -/
def directive (s : Scan) : Except Failure Scan := do
  let s ← s.unwindAll.dropCandidate
  let (d, c) ← readDirective s.cursor
  return ({ s with keyAllowed := false }.moveTo c).emit (.directive d)

/-- A separator of documents. -/
def separator (s : Scan) (t : Token) : Except Failure Scan := do
  let s ← s.unwindAll.dropCandidate
  return ({ s with keyAllowed := false }.moveTo (s.cursor.skip 3)).emit t

/-- An opening bracket. -/
def openFlow (s : Scan) (t : Token) : Except Failure Scan := do
  let s ← s.offer
  let s := s.emit t
  return { s with
    keyAllowed := true, candidate := none, enclosing := s.candidate :: s.enclosing
    cursor := s.cursor.step }

/-- A closing bracket. -/
def closeFlow (s : Scan) (t : Token) : Except Failure Scan := do
  let s ← s.dropCandidate
  match s.enclosing with
  | [] => throw .malformed
  | candidate :: enclosing =>
    return { s.emit t with keyAllowed := false, candidate, enclosing, cursor := s.cursor.step }

/-- A comma between brackets. -/
def flowEntry (s : Scan) : Except Failure Scan := do
  let s ← { s with keyAllowed := true }.dropCandidate
  return (s.moveTo s.cursor.step).emit .flowEntry

/-- A dash. -/
def blockEntry (s : Scan) : Except Failure Scan := do
  if !s.inFlow && !s.keyAllowed then throw .malformed
  let s ← { s.openBlock .blockSequenceStart with keyAllowed := true }.dropCandidate
  return (s.moveTo s.cursor.step).emit .blockEntry

/-- A question mark. -/
def explicitKey (s : Scan) : Except Failure Scan := do
  if !s.inFlow && !s.keyAllowed then throw .malformed
  let s ← { s.openBlock .blockMappingStart with keyAllowed := !s.inFlow }.dropCandidate
  return (s.moveTo s.cursor.step).emit .key

/-- A colon. It makes a key of the candidate if there is one, and follows an explicit key
otherwise. -/
def value (s : Scan) : Except Failure Scan := do
  let s ← match s.candidate with
    | some k =>
      let opens := s.opensAt k.column
      let s := { s with candidate := none, keyAllowed := false }.emitBefore k.number .key
      pure (if opens then (s.indentTo k.column).emitBefore k.number .blockMappingStart else s)
    | none =>
      if !s.inFlow && !s.keyAllowed then throw .malformed
      { s.openBlock .blockMappingStart with keyAllowed := !s.inFlow }.dropCandidate
  return (s.moveTo s.cursor.step).emit .value

/-- A token that may start a key and that no key may follow. -/
def word (s : Scan) (read : Cursor → Except Failure (Token × Cursor)) : Except Failure Scan := do
  let s ← s.offer
  let (t, c) ← read s.cursor
  return ({ s with keyAllowed := false }.moveTo c).emit t

/-- A block scalar. -/
def block (s : Scan) (folded : Bool) : Except Failure Scan := do
  let s ← { s with keyAllowed := true }.dropCandidate
  let (text, c) ← blockScalar folded s.innerColumn s.cursor
  return (s.moveTo c).emit (.scalar text false)

/-- A plain scalar. A key may follow it if a line has ended. -/
def plain (s : Scan) : Except Failure Scan := do
  let s ← s.offer
  let p := plainScalar s.inFlow s.innerColumn s.cursor
  return ({ s with keyAllowed := p.broken }.moveTo p.after).emit
    (.scalar (String.ofList p.text) true)

/-! ## Reading a token -/

/-- The characters that start no plain scalar. -/
def indicators : List Char :=
  ['-', '?', ':', ',', '[', ']', '\x7b', '\x7d', '#', '&', '*', '!', '|', '>', '\'', '"', '%',
    '@', '\x60']

/-- Whether a plain scalar may start with a character, given the next one. -/
def startsPlain (s : Scan) (c : Char) (next : Option Char) : Bool :=
  (!endsWord (some c) && !indicators.contains c) ||
    (!endsWord next && (c == '-' || (!s.inFlow && (c == '?' || c == ':'))))

/-- Over spaces, comments and line ends. Outside of brackets a key may follow a line end. -/
def skipBlank : Nat → Scan → Scan
  | 0, s => s
  | fuel + 1, s =>
    let c := (s.cursor.skipWhile (· == ' ')).skipComment
    match c.lineBreak? with
    | some (_, c) => skipBlank fuel { s with cursor := c, keyAllowed := s.keyAllowed || !s.inFlow }
    | none => s.moveTo c

/-- Reads the token at a character. -/
def readTokenAt (s : Scan) (x : Char) (rest : List Char) : Except Failure Scan :=
  let next := rest.head?
  let atStart := s.cursor.column == 0
  if x == '%' && atStart then s.directive
  else if x == '-' && atStart && atSeparator (x :: rest) then s.separator .documentStart
  else if x == '.' && atStart && atSeparator (x :: rest) then s.separator .documentEnd
  else if x == '[' then s.openFlow .flowSequenceStart
  else if x == '\x7b' then s.openFlow .flowMappingStart
  else if x == ']' then s.closeFlow .flowSequenceEnd
  else if x == '\x7d' then s.closeFlow .flowMappingEnd
  else if x == ',' then s.flowEntry
  else if x == '-' && endsWord next then s.blockEntry
  else if x == '?' && (s.inFlow || endsWord next) then s.explicitKey
  else if x == ':' && (s.inFlow || endsWord next) then s.value
  else if x == '*' then s.word fun c => (readAnchorName c).map fun (name, c) => (.alias name, c)
  else if x == '&' then s.word fun c => (readAnchorName c).map fun (name, c) => (.anchor name, c)
  else if x == '!' then s.word fun c => (readTag c).map fun (tag, c) => (.tag tag, c)
  else if x == '|' && !s.inFlow then s.block false
  else if x == '>' && !s.inFlow then s.block true
  else if x == '\'' || x == '"' then
    s.word fun c => (quotedScalar (x == '"') c).map fun (text, c) => (.scalar text false, c)
  else if s.startsPlain x next then s.plain
  else .error .malformed

/-- Reads the next token, and the ends of block collections before it. -/
def readToken (s : Scan) : Except Failure Scan := do
  let s ← (skipBlank (s.cursor.rest.length + 1) s).dropStale
  let s := s.unwind s.cursor.column
  match s.cursor.rest with
  | [] => s.endStream
  | x :: rest => s.readTokenAt x rest

/-- The number of tokens that no candidate stands before. -/
def settled (s : Scan) : Nat :=
  (s.candidate :: s.enclosing).foldl (fun n k => match k with
    | some k => min n k.number
    | none => n) s.count

end Scan

/-- The tokens of a text, and why reading ended if not at the end. -/
structure TokenStream where
  tokens : List Token
  failure : Failure := .malformed

namespace TokenStream

/-- Reads tokens until the end of the text or a failure, after which only settled tokens count. -/
def readAll : Nat → Scan → TokenStream
  | 0, s => { tokens := s.tokens.reverse }
  | fuel + 1, s =>
    match s.readToken with
    | .error failure => { tokens := s.tokens.reverse.take s.settled, failure }
    | .ok next =>
      if next.tokens.head? == some .streamEnd then { tokens := next.tokens.reverse }
      else readAll fuel next

/-- The tokens of a text. A byte order mark at the start is passed over. -/
def ofText (text : List Char) : TokenStream :=
  let start : Cursor := { rest := text }
  let start := if start.peek == some '\uFEFF' then start.step else start
  readAll (text.length + 2) { cursor := start }

end TokenStream

end DepGraph.Yaml
