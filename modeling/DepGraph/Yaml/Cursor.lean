/-!
# Places in a document

A `Cursor` is the text that is still to be read, with its place: the number of characters before it,
its line and its column. Line ends are line feeds; the next-line character and the two separators of
Unicode end a line as well.

Main definitions: `Cursor.step` (over one character), `Cursor.skip`, `Cursor.span`,
`Cursor.lineBreak?`, and the classes of what may end a word.
-/

set_option autoImplicit false

namespace DepGraph.Yaml

/-- The characters that end a line. -/
def isBreak (c : Char) : Bool :=
  c == '\n' || c == '\u0085' || c == '\u2028' || c == '\u2029'

def isSpaceOrTab (c : Char) : Bool := c == ' ' || c == '\t'

/-- The end of the text or of a line stands here. -/
def endsLine : Option Char → Bool
  | none => true
  | some c => isBreak c

/-- A space, the end of the text or of a line stands here. -/
def endsField (c : Option Char) : Bool := endsLine c || c == some ' '

/-- A space, a tab, the end of the text or of a line stands here. -/
def endsWord (c : Option Char) : Bool := endsField c || c == some '\t'

/-- A separator of documents stands here. -/
def atSeparator : List Char → Bool
  | '-' :: '-' :: '-' :: rest => endsWord rest.head?
  | '.' :: '.' :: '.' :: rest => endsWord rest.head?
  | _ => false

/-- The characters of anchors, tag handles and directive names. -/
def isNameChar (c : Char) : Bool :=
  ('0' ≤ c && c ≤ '9') || ('A' ≤ c && c ≤ 'Z') || ('a' ≤ c && c ≤ 'z') || c == '-' || c == '_'

/-- The rest of a text and its place. -/
structure Cursor where
  rest : List Char
  index : Nat := 0
  line : Nat := 0
  column : Nat := 0
  deriving Repr

namespace Cursor

/-- The character at the place. -/
def peek (c : Cursor) : Option Char := c.rest.head?

/-- Over one character. A byte order mark takes no column. -/
def step (c : Cursor) : Cursor :=
  match c.rest with
  | [] => c
  | x :: rest =>
    if isBreak x then { rest, index := c.index + 1, line := c.line + 1, column := 0 }
    else if x == '\uFEFF' then { c with rest, index := c.index + 1 }
    else { c with rest, index := c.index + 1, column := c.column + 1 }

/-- Over some characters. -/
def skip : Nat → Cursor → Cursor
  | 0, c => c
  | n + 1, c => skip n c.step

/-- The characters of a class here, and the place after them. -/
def span (c : Cursor) (p : Char → Bool) : List Char × Cursor :=
  let taken := c.rest.takeWhile p
  (taken, c.skip taken.length)

/-- Over the characters of a class. -/
def skipWhile (c : Cursor) (p : Char → Bool) : Cursor := (c.span p).2

/-- The end of a line here as the text it counts for, and the place after it. -/
def lineBreak? (c : Cursor) : Option (Char × Cursor) :=
  match c.peek with
  | some x => if isBreak x then some (if x == '\u0085' then '\n' else x, c.step) else none
  | none => none

/-- Over one character the rest gets shorter by it. -/
theorem step_rest {c : Cursor} {x : Char} {rest : List Char} (h : c.rest = x :: rest) :
    c.step.rest = rest := by
  unfold step
  rw [h]
  dsimp only
  split
  · rfl
  · split <;> rfl

/-- Over one character the rest gets shorter. -/
theorem step_length {c : Cursor} {x : Char} {rest : List Char} (h : c.rest = x :: rest) :
    c.step.rest.length < c.rest.length := by
  rw [step_rest h, h]
  simp

/-- Over a comment, if one stands here. -/
def skipComment (c : Cursor) : Cursor :=
  if c.peek == some '#' then c.skipWhile (!isBreak ·) else c

end Cursor

end DepGraph.Yaml
