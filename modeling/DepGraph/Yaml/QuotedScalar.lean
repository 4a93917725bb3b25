import DepGraph.Yaml.Header
import DepGraph.Yaml.PlainScalar

/-!
# Quoted scalars

Between single quotation marks only such a mark is written specially, namely twice. Between double
ones a backslash starts an escape. The ends of lines are folded as in plain scalars.
-/

set_option autoImplicit false

namespace DepGraph.Yaml

/-- The character that an escape of one letter stands for. -/
def escaped? : Char → Option Char
  | '0' => some '\x00'
  | 'a' => some '\x07'
  | 'b' => some '\x08'
  | 't' => some '\t'
  | '\t' => some '\t'
  | 'n' => some '\n'
  | 'v' => some '\x0b'
  | 'f' => some '\x0c'
  | 'r' => some '\r'
  | 'e' => some '\x1b'
  | ' ' => some ' '
  | '"' => some '"'
  | '\\' => some '\\'
  | '/' => some '/'
  | 'N' => some '\u0085'
  | '_' => some '\u00a0'
  | 'L' => some '\u2028'
  | 'P' => some '\u2029'
  | _ => none

/-- The number of digits after the letter of a numbered character. -/
def codeLength? : Char → Option Nat
  | 'x' => some 2
  | 'u' => some 4
  | 'U' => some 8
  | _ => none

/-- The character with a code. Half a surrogate pair is no character and is replaced. -/
def charOfCode (n : Nat) : Except Failure Char :=
  if 0xD800 ≤ n ∧ n < 0xE000 then .ok '\uFFFD'
  else if n < 0x110000 then .ok (Char.ofNat n)
  else if n < 2147483648 then .error .badValue
  else .error .badCode

/-- The breaks of the empty lines and the blanks before the text of the next line. No separator of
documents may stand at the start of a line. -/
def quotedBreaks (breaks : List Char) : Nat → Cursor → Except Failure (List Char × Cursor)
  | 0, c => .ok (breaks, c)
  | fuel + 1, c =>
    if atSeparator c.rest then .error .malformed
    else
      let c := c.skipWhile isSpaceOrTab
      match c.lineBreak? with
      | some (x, c) => quotedBreaks (breaks ++ [x]) fuel c
      | none => .ok (breaks, c)

/-- Blanks and ends of lines inside quotation marks. -/
def quotedGap (c : Cursor) : Except Failure (List Char × Cursor) :=
  let (blanks, c) := c.span isSpaceOrTab
  match c.lineBreak? with
  | some (first, c) => do
    let (more, c) ← quotedBreaks [] (c.rest.length + 1) c
    return (foldedBreaks first more, c)
  | none => if c.rest.isEmpty then .error .malformed else .ok (blanks, c)

/-- An escape, after its backslash. -/
def readEscape (c : Cursor) : Except Failure (List Char × Cursor) :=
  match c.rest with
  | [] => .error .malformed
  | x :: rest =>
    match escaped? x with
    | some d => .ok ([d], c.step)
    | none =>
      match codeLength? x with
      | some n =>
        match hexNumber? n rest with
        | some code => do return ([← charOfCode code], c.skip (n + 1))
        | none => .error .malformed
      | none => if isBreak x then quotedBreaks [] (rest.length + 1) c.step else .error .malformed

/-- The text of a scalar up to its closing mark; `text` holds what was read, last first. -/
def quotedText (double : Bool) : Nat → List Char → Cursor → Except Failure (List Char × Cursor)
  | 0, _, _ => .error .malformed
  | fuel + 1, text, c =>
    match c.rest with
    | [] => .error .malformed
    | x :: rest =>
      if endsWord (some x) then
        match quotedGap c with
        | .ok (gap, c) => quotedText double fuel (gap.reverse ++ text) c
        | .error f => .error f
      else if x == '\'' && !double then
        if rest.head? == some '\'' then quotedText double fuel (x :: text) (c.skip 2)
        else .ok (text.reverse, c.step)
      else if x == '"' && double then .ok (text.reverse, c.step)
      else if x == '\\' && double then
        match readEscape c.step with
        | .ok (chars, c) => quotedText double fuel (chars.reverse ++ text) c
        | .error f => .error f
      else quotedText double fuel (x :: text) c.step

/-- The quoted scalar at a cursor. -/
def quotedScalar (double : Bool) (c : Cursor) : Except Failure (String × Cursor) := do
  let (text, c) ← quotedText double (c.rest.length + 1) [] c.step
  return (String.ofList text, c)

end DepGraph.Yaml
