import DepGraph.Text.Digit
import DepGraph.Yaml.Cursor
import DepGraph.Yaml.Failure
import DepGraph.Yaml.Token

/-!
# Tags, anchors and directives

The parts of a document that start with an exclamation mark, an ampersand, an asterisk or a percent
sign. Each function reads one of them at a cursor and gives the place after it.
-/

set_option autoImplicit false

namespace DepGraph.Yaml

open DepGraph.Text

/-- The number that exactly `n` hexadecimal digits at the start write. -/
def hexNumber? (n : Nat) (s : List Char) : Option Nat :=
  let digits := s.take n
  if digits.length == n then
    digits.foldl (fun acc c => return (← acc) * 16 + (← hexValue? c)) (some 0)
  else none

/-! ## Anchors and aliases -/

/-- The name after an ampersand or an asterisk. -/
def readAnchorName (c : Cursor) : Except Failure (String × Cursor) :=
  let (name, c) := c.step.span isNameChar
  let ended := endsWord c.peek ||
    (c.peek.map ['?', ':', ',', ']', '\x7d', '%', '@', '\x60'].contains).getD false
  if name.isEmpty || !ended then .error .malformed else .ok (String.ofList name, c)

/-! ## Tags -/

/-- The characters of a tag that stand for themselves. -/
def isTagChar (c : Char) : Bool :=
  ('0' ≤ c && c ≤ '9') || ('A' ≤ c && c ≤ 'Z') || ('a' ≤ c && c ≤ 'z') ||
    ['-', ';', '/', '?', ':', '@', '&', '=', '+', '$', ',', '_', '.', '!', '~', '*', '\'', '(', ')',
      '[', ']'].contains c

/-- A run of octets, each a percent sign and two digits. -/
def readOctets (acc : List UInt8) : Nat → Cursor → Except Failure (List UInt8 × Cursor)
  | 0, c => .ok (acc.reverse, c)
  | fuel + 1, c =>
    if c.peek == some '%' then
      match hexNumber? 2 c.step.rest with
      | some n => readOctets (n.toUInt8 :: acc) fuel (c.skip 3)
      | none => .error .malformed
    else .ok (acc.reverse, c)

/-- The text of a tag, with its escapes decoded. `fuel` bounds the number of its parts. -/
def readTagText (acc : String) : Nat → Cursor → Except Failure (String × Cursor)
  | 0, c => .ok (acc, c)
  | fuel + 1, c =>
    if c.peek == some '%' then
      match readOctets [] c.rest.length c with
      | .ok (octets, c) =>
        match String.fromUTF8? ⟨octets.toArray⟩ with
        | some text => readTagText (acc ++ text) fuel c
        | none => .error .malformed
      | .error f => .error f
    else
      match c.span isTagChar with
      | ([], c) => .ok (acc, c)
      | (part, c) => readTagText (acc ++ String.ofList part) fuel c

/-- The text of a tag, which has to have at least one part. -/
def readTagSuffix (c : Cursor) : Except Failure (String × Cursor) :=
  if c.peek == some '%' || (c.peek.map isTagChar).getD false then
    readTagText "" (c.rest.length + 1) c
  else .error .malformed

/-- A tag handle: an exclamation mark, or a name between two of them. -/
def readTagHandle (c : Cursor) : Except Failure (String × Cursor) :=
  if c.peek != some '!' then .error .malformed
  else if c.step.peek == some ' ' then .ok ("!", c.step)
  else
    let (name, after) := c.step.span isNameChar
    if after.peek == some '!' then .ok (String.ofList ('!' :: name ++ ['!']), after.step)
    else .error .malformed

/-- Whether the word at the start of a text holds a second exclamation mark. -/
def hasHandle (s : List Char) : Bool :=
  (s.takeWhile fun c => !endsField (some c)).contains '!'

/-- A tag, at its exclamation mark. -/
def readTag (c : Cursor) : Except Failure (WrittenTag × Cursor) := do
  let (tag, c) ← match c.step.peek with
    | some '<' =>
      let (suffix, c) ← readTagSuffix (c.skip 2)
      if c.peek == some '>' then pure (⟨none, suffix⟩, c.step) else throw .malformed
    | next =>
      if endsWord next then pure (⟨none, "!"⟩, c.step)
      else
        let (handle, c) ← if hasHandle c.step.rest then readTagHandle c else pure ("!", c.step)
        let (suffix, c) ← readTagSuffix c
        pure (⟨some handle, suffix⟩, c)
  if endsField c.peek then return (tag, c) else throw .malformed

/-! ## Directives -/

/-- The digits of a version number. -/
def readVersionPart (c : Cursor) : Except Failure (Nat × Cursor) :=
  match c.span Char.isDigit with
  | ([], _) => .error .malformed
  | (digits, c) => .ok (natOfDigits digits, c)

/-- The version after the name of its directive. -/
def readVersion (c : Cursor) : Except Failure (Directive × Cursor) := do
  let (major, c) ← readVersionPart (c.skipWhile (· == ' '))
  if c.peek != some '.' then throw .malformed
  let (_, c) ← readVersionPart c.step
  if endsField c.peek then return (.version major, c) else throw .malformed

/-- The handle and what it stands for, after the name of their directive. -/
def readHandle (c : Cursor) : Except Failure (Directive × Cursor) := do
  let (handle, c) ← readTagHandle (c.skipWhile (· == ' '))
  if c.peek != some ' ' then throw .malformed
  let (stem, c) ← readTagSuffix (c.skipWhile (· == ' '))
  if endsField c.peek then return (.tagHandle handle stem, c) else throw .malformed

/-- The spaces and the comment up to the end of the line, and that end. -/
def readLineEnd (c : Cursor) : Except Failure Cursor :=
  let c := (c.skipWhile (· == ' ')).skipComment
  match c.lineBreak? with
  | some (_, c) => .ok c
  | none => if c.rest.isEmpty then .ok c else .error .malformed

/-- A directive, at its percent sign, with the end of its line. -/
def readDirective (c : Cursor) : Except Failure (Directive × Cursor) := do
  let (name, c) := c.step.span isNameChar
  if name.isEmpty || !endsField c.peek then throw .malformed
  let (directive, c) ← match String.ofList name with
    | "YAML" => readVersion c
    | "TAG" => readHandle c
    | _ => pure (.other, c.skipWhile (!isBreak ·))
  return (directive, ← readLineEnd c)

end DepGraph.Yaml
