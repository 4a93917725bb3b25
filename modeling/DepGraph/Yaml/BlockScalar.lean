import DepGraph.Yaml.Header

/-!
# Block scalars

A scalar after a bar keeps its lines, one after a greater-than sign folds them. Its header may
tell how far its lines are indented and what becomes of the line ends after the last of them.
-/

set_option autoImplicit false

namespace DepGraph.Yaml

/-- What becomes of the line ends after the last line: one is kept, all are, or none is. -/
inductive Chomping where
  | clip
  | keep
  | strip
  deriving DecidableEq, Repr

/-- The header of a block scalar. -/
structure BlockHeader where
  chomping : Chomping := .clip
  /-- The indentation of the lines relative to that of the parent. -/
  increment : Option Nat := none

/-- How the line ends at the end are treated, if a sign here tells it. -/
def readChomping (c : Cursor) : Option Chomping × Cursor :=
  match c.peek with
  | some '+' => (some .keep, c.step)
  | some '-' => (some .strip, c.step)
  | _ => (none, c)

/-- The indentation, if a digit here tells it. -/
def readIncrement (c : Cursor) : Except Failure (Option Nat × Cursor) :=
  match c.peek with
  | some d =>
    if d.isDigit then
      if d == '0' then .error .malformed else .ok (some (d.toNat - 48), c.step)
    else .ok (none, c)
  | none => .ok (none, c)

/-- The header after its first character: a sign and a digit in either order. -/
def readBlockHeader (c : Cursor) : Except Failure (BlockHeader × Cursor) := do
  let (before, c) := readChomping c
  let (increment, c) ← readIncrement c
  let (after, c) := if before.isNone && increment.isSome then readChomping c else (none, c)
  let chomping := (before.or after).getD .clip
  if endsField c.peek then return (⟨chomping, increment⟩, c) else throw .malformed

/-- The breaks of the empty lines before the first line, last first, and the furthest column that a
space reaches in them or in it. -/
def firstIndent (breaks : List Char) (furthest : Nat) (c : Cursor) : List Char × Nat × Cursor :=
  match _h : c.rest with
  | [] => (breaks, furthest, c)
  | x :: _ =>
    if x == ' ' then firstIndent breaks (max furthest c.step.column) c.step
    else if isBreak x then
      firstIndent ((if x == '\u0085' then '\n' else x) :: breaks) furthest c.step
    else (breaks, furthest, c)
termination_by c.rest.length
decreasing_by all_goals exact Cursor.step_length _h

/-- Over spaces, but not beyond a column. -/
def skipIndent (indent : Nat) (c : Cursor) : Cursor :=
  c.skip ((c.rest.take (indent - c.column)).takeWhile (· == ' ')).length

/-- The breaks of empty lines, last first, and the place in the next line after its indentation. -/
def blockBreaks (indent : Nat) : Nat → List Char → Cursor → List Char × Cursor
  | 0, breaks, c => (breaks, c)
  | fuel + 1, breaks, c =>
    let c := skipIndent indent c
    match c.lineBreak? with
    | some (x, c) => blockBreaks indent fuel (x :: breaks) c
    | none => (breaks, c)

/-- What was read of a block scalar: its text, last character first, the end of its last line, and
the breaks after that, last first. -/
structure BlockText where
  text : List Char
  lineEnd : List Char
  breaks : List Char
  after : Cursor

/-- Whether the line here starts with a space or a tab. -/
def startsBlank (c : Cursor) : Bool := (c.peek.map isSpaceOrTab).getD false

/-- Whether the next line belongs to the scalar. -/
def inBlock (indent : Nat) (c : Cursor) : Bool := c.column == indent && !c.rest.isEmpty

/-- The lines of a block scalar. Where lines are folded, a break between two lines that start with
no blank counts as a space, or as nothing if empty lines stand between them. -/
def blockLines (folded : Bool) (indent : Nat) : Nat → BlockText → BlockText
  | 0, b => b
  | fuel + 1, b =>
    if inBlock indent b.after then
      let blank := startsBlank b.after
      let (line, c) := b.after.span (!isBreak ·)
      let text := line.reverse ++ (b.breaks ++ b.text)
      let (lineEnd, c) := match c.lineBreak? with
        | some (x, c) => ([x], c)
        | none => ([], c)
      let (breaks, c) := blockBreaks indent (c.rest.length + 1) [] c
      if inBlock indent c then
        let text :=
          if folded && lineEnd == ['\n'] && !blank && !startsBlank c then
            if breaks.isEmpty then ' ' :: text else text
          else lineEnd ++ text
        blockLines folded indent fuel ⟨text, lineEnd, breaks, c⟩
      else ⟨text, lineEnd, breaks, c⟩
    else b

/-- The block scalar at a cursor. `parent` is the least column that its lines may have. -/
def blockScalar (folded : Bool) (parent : Nat) (c : Cursor) : Except Failure (String × Cursor) := do
  let (header, c) ← readBlockHeader c.step
  let c ← readLineEnd c
  let least := max parent 1
  let (breaks, indent, c) := match header.increment with
    | none =>
      let (breaks, furthest, c) := firstIndent [] 0 c
      (breaks, max least furthest, c)
    | some n =>
      let indent := least + n - 1
      let (breaks, c) := blockBreaks indent (c.rest.length + 1) [] c
      (breaks, indent, c)
  let b := blockLines folded indent (c.rest.length + 1) ⟨[], [], breaks, c⟩
  let tail := match header.chomping with
    | .strip => []
    | .clip => b.lineEnd
    | .keep => b.lineEnd ++ b.breaks.reverse
  return (String.ofList (b.text.reverse ++ tail), b.after)

end DepGraph.Yaml
