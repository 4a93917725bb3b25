import DepGraph.Value.Basic
import DepGraph.Value.Render

/-!
# Values as JSON text

`Json.render` writes a value on one line, with a space after every comma and colon. Texts escape
quotation marks, backslashes and control characters; everything else stands as it is, unless the
style asks for ASCII alone.
-/

set_option autoImplicit false

namespace DepGraph.Json

/-- Whether characters outside ASCII are written by number. -/
inductive Style where
  | plain
  | ascii
  deriving DecidableEq, Repr

/-- A code unit by number. -/
def unitEscape (n : Nat) : List Char := ['\\', 'u'] ++ Text.hexDigits 4 n

/-- A character by number, as one code unit or as a pair of surrogates. -/
def charEscape (c : Char) : List Char :=
  let n := c.toNat
  if n < 0x10000 then unitEscape n
  else unitEscape (0xD800 + (n - 0x10000) / 0x400) ++ unitEscape (0xDC00 + (n - 0x10000) % 0x400)

/-- One character of a text. -/
def encodeChar (style : Style) (c : Char) : List Char :=
  if c == '"' then ['\\', '"']
  else if c == '\\' then ['\\', '\\']
  else if c == '\n' then ['\\', 'n']
  else if c == '\r' then ['\\', 'r']
  else if c == '\t' then ['\\', 't']
  else if c.toNat == 8 then ['\\', 'b']
  else if c.toNat == 12 then ['\\', 'f']
  else if c.toNat < 32 then unitEscape c.toNat
  else if style = .ascii ∧ 127 ≤ c.toNat then charEscape c
  else [c]

/-- The text between quotation marks, with its escapes. -/
def encodeText (style : Style) (s : List Char) : List Char :=
  '"' :: s.flatMap (encodeChar style) ++ ['"']

/-- The text of a key that is not a text: nulls, truth values and numbers by their names. -/
def keyText : Scalar → String
  | .null => "null"
  | .bool b => if b then "true" else "false"
  | .text s => s
  | s => s.render

/-- A number of double precision. -/
def encodeReal : Real64 → String
  | .infinite negative => if negative then "-Infinity" else "Infinity"
  | .notANumber => "NaN"
  | r => r.render

/-- A scalar; dates and octets have no form of their own and are written as texts. -/
def encodeScalar (style : Style) : Scalar → List Char
  | .null => "null".toList
  | .bool b => (if b then "true" else "false").toList
  | .int i => (toString i).toList
  | .real r => (encodeReal r).toList
  | .text s => encodeText style s.toList
  | s => encodeText style s.render.toList

mutual

/-- A value on one line. -/
def encode (style : Style) : Value → List Char
  | .scalar s => encodeScalar style s
  | .list items => '[' :: encodeItems style items ++ [']']
  | .map entries => '\x7b' :: encodeEntries style entries ++ ['\x7d']
  | .set members =>
    '[' :: (List.intercalate [',', ' '] (members.map (encodeScalar style))) ++ [']']

/-- Items separated by commas. -/
def encodeItems (style : Style) : List Value → List Char
  | [] => []
  | [x] => encode style x
  | x :: y :: rest => encode style x ++ ',' :: ' ' :: encodeItems style (y :: rest)

/-- Entries separated by commas. -/
def encodeEntries (style : Style) : List (Scalar × Value) → List Char
  | [] => []
  | [(k, v)] => encodeText style (keyText k).toList ++ ':' :: ' ' :: encode style v
  | (k, v) :: e :: rest =>
    encodeText style (keyText k).toList ++ ':' :: ' ' :: encode style v ++
      ',' :: ' ' :: encodeEntries style (e :: rest)

end

/-- The text of a value. -/
def render (style : Style) (v : Value) : String := String.ofList (encode style v)

end DepGraph.Json
