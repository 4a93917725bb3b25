import DepGraph.Yaml.Cursor

/-!
# Plain scalars

A scalar without quotation marks ends before a colon or a number sign that stands for itself, or
where the next line is not indented enough. A single line break inside it counts as a space,
several count as one less.
-/

set_option autoImplicit false

namespace DepGraph.Yaml

/-- Characters that may not stand in a plain scalar inside brackets. -/
def flowMarks : List Char := [',', '?', '[', ']', '\x7b', '\x7d']

/-- Whether a colon separates here: what follows it ends it, or is a bracket. -/
def separates (inFlow : Bool) (next : Option Char) : Bool :=
  endsWord next ||
    (inFlow && (next.map [',', '[', ']', '\x7b', '\x7d'].contains).getD false)

/-- The characters up to the next blank or mark. -/
def plainPart (inFlow : Bool) : List Char → List Char
  | [] => []
  | c :: rest =>
    if endsWord (some c) || (c == ':' && separates inFlow rest.head?) ||
        (inFlow && flowMarks.contains c) then []
    else c :: plainPart inFlow rest

/-- What stands between two parts of a plain scalar. -/
structure PlainGap where
  /-- The text it counts for; nothing if the scalar ends. -/
  text : List Char
  /-- Whether it holds the end of a line. -/
  broken : Bool
  after : Cursor

/-- The breaks of empty lines, last first, and whether a separator of documents ends them. -/
def emptyLines (breaks : List Char) (c : Cursor) : List Char × Bool × Cursor :=
  match _h : c.rest with
  | [] => (breaks, false, c)
  | x :: _ =>
    if x == ' ' then emptyLines breaks c.step
    else if isBreak x then
      let breaks := (if x == '\u0085' then '\n' else x) :: breaks
      if atSeparator c.step.rest then (breaks, true, c.step) else emptyLines breaks c.step
    else (breaks, false, c)
termination_by c.rest.length
decreasing_by all_goals exact Cursor.step_length _h

/-- The text that the ends of lines count for: `first` is the end of the line before, `more` are
those of the empty lines. -/
def foldedBreaks (first : Char) (more : List Char) : List Char :=
  (if first != '\n' then [first] else if more.isEmpty then [' '] else []) ++ more

/-- The gap after a part of a plain scalar. -/
def plainGap (c : Cursor) : PlainGap :=
  let (spaces, c) := c.span (· == ' ')
  match c.lineBreak? with
  | none => { text := spaces, broken := false, after := c }
  | some (first, c) =>
    if atSeparator c.rest then { text := [], broken := true, after := c }
    else
      match emptyLines [] c with
      | (_, true, c) => { text := [], broken := true, after := c }
      | (breaks, false, c) =>
        { text := foldedBreaks first breaks.reverse, broken := true, after := c }

/-- A plain scalar that was read: its text, whether a line ended after its last part, and the place
after it. -/
structure PlainScalar where
  text : List Char
  broken : Bool
  after : Cursor

/-- The parts of a plain scalar from here on. `gap` stands between what was read and the next part;
`indent` is the least column of a further line. -/
def plainParts (inFlow : Bool) (indent : Nat) : Nat → List Char → PlainGap → PlainScalar
  | 0, text, gap => ⟨text, gap.broken, gap.after⟩
  | fuel + 1, text, gap =>
    let c := gap.after
    match if c.peek == some '#' then [] else plainPart inFlow c.rest with
    | [] => ⟨text, gap.broken, c⟩
    | part =>
      let text := text ++ gap.text ++ part
      let next := plainGap (c.skip part.length)
      if next.text.isEmpty || next.after.peek == some '#' ||
          (!inFlow && next.after.column < indent) then ⟨text, next.broken, next.after⟩
      else plainParts inFlow indent fuel text next

/-- The plain scalar at a cursor. -/
def plainScalar (inFlow : Bool) (indent : Nat) (c : Cursor) : PlainScalar :=
  plainParts inFlow indent (c.rest.length + 1) [] { text := [], broken := false, after := c }

end DepGraph.Yaml
