import DepGraph.Text.Digit
import DepGraph.Value.Entries

/-!
# Reading JSON text

`Json.read?` reads a whole text as one value. A number with a point or an exponent is read as a
number of double precision, any other one as a whole number. A key that is written twice keeps its
first place and its last value.

The scanners work on lists of characters and return the rest; `fuel` bounds the depth of nesting
plus the number of items and is taken from the length of the text.
-/

set_option autoImplicit false

namespace DepGraph.Json

open DepGraph.Text

/-- The blanks between parts. -/
def isSpace (c : Char) : Bool := c == ' ' || c == '\n' || c == '\r' || c == '\t'

def skipSpace (s : List Char) : List Char := s.dropWhile isSpace

/-- Four hexadecimal digits. -/
def readUnit? : List Char → Option (Nat × List Char)
  | a :: b :: c :: d :: rest => do
    let n := (← hexValue? a) * 4096 + (← hexValue? b) * 256 + (← hexValue? c) * 16 + (← hexValue? d)
    some (n, rest)
  | _ => none

/-- The character after a backslash and `u`, a pair of surrogates being one character. -/
def readEscapedUnit? (s : List Char) : Option (Char × List Char) := do
  let (n, rest) ← readUnit? s
  if 0xD800 ≤ n ∧ n < 0xDC00 then
    match rest with
    | '\\' :: 'u' :: more =>
      let (m, rest) ← readUnit? more
      if 0xDC00 ≤ m ∧ m < 0xE000 then
        some (Char.ofNat (0x10000 + (n - 0xD800) * 0x400 + (m - 0xDC00)), rest)
      else none
    | _ => none
  else some (Char.ofNat n, rest)

/-- The character that a one-letter escape stands for. -/
def letterEscape? : Char → Option Char
  | '"' => some '"'
  | '\\' => some '\\'
  | '/' => some '/'
  | 'b' => some '\x08'
  | 'f' => some '\x0c'
  | 'n' => some '\n'
  | 'r' => some '\r'
  | 't' => some '\t'
  | _ => none

/-- The rest of a text after its opening quotation mark; `acc` holds what was read, last first. -/
def readText? : Nat → List Char → List Char → Option (String × List Char)
  | 0, _, _ => none
  | _ + 1, _, [] => none
  | fuel + 1, acc, c :: rest =>
    if c == '"' then some (String.ofList acc.reverse, rest)
    else if c == '\\' then
      match rest with
      | 'u' :: more =>
        match readEscapedUnit? more with
        | some (d, rest) => readText? fuel (d :: acc) rest
        | none => none
      | e :: more =>
        match letterEscape? e with
        | some d => readText? fuel (d :: acc) more
        | none => none
      | [] => none
    else if c.toNat < 32 then none
    else readText? fuel (c :: acc) rest

/-- An exponent after its mark, with the rest. -/
def readExponent? (s : List Char) : Option (Int × List Char) :=
  let (negative, s) := match s with
    | '-' :: rest => (true, rest)
    | '+' :: rest => (false, rest)
    | _ => (false, s)
  let digits := s.takeWhile Char.isDigit
  if digits.isEmpty then none
  else
    let n : Int := natOfDigits digits
    some (if negative then -n else n, s.dropWhile Char.isDigit)

/-- A number with the rest. -/
def readNumber? (s : List Char) : Option (Scalar × List Char) := do
  let (negative, s) := match s with
    | '-' :: rest => (true, rest)
    | _ => (false, s)
  let whole := s.takeWhile Char.isDigit
  let s := s.dropWhile Char.isDigit
  if whole.isEmpty then none
  else
    let (fraction, s) := match s with
      | '.' :: rest => (some (rest.takeWhile Char.isDigit), rest.dropWhile Char.isDigit)
      | _ => (none, s)
    let (exponent, s) ← match s with
      | 'e' :: rest => (readExponent? rest).map fun (x, r) => (some x, r)
      | 'E' :: rest => (readExponent? rest).map fun (x, r) => (some x, r)
      | _ => some (none, s)
    match fraction, exponent with
    | none, none =>
      let n : Int := natOfDigits whole
      some (.int (if negative then -n else n), s)
    | _, _ =>
      let places := fraction.getD []
      let n := natOfDigits (whole ++ places)
      some (.real (Real64.ofDecimal negative n (exponent.getD 0 - places.length)), s)

/-- A word that stands for a scalar. -/
def readWord? (s : List Char) : Option (Scalar × List Char) :=
  match s with
  | 'n' :: 'u' :: 'l' :: 'l' :: rest => some (.null, rest)
  | 't' :: 'r' :: 'u' :: 'e' :: rest => some (.bool true, rest)
  | 'f' :: 'a' :: 'l' :: 's' :: 'e' :: rest => some (.bool false, rest)
  | _ => none

mutual

/-- A value with the rest. -/
def readValue? : Nat → List Char → Option (Value × List Char)
  | 0, _ => none
  | fuel + 1, s =>
    match skipSpace s with
    | '"' :: rest => (readText? (rest.length + 1) [] rest).map fun (t, r) => (.text t, r)
    | '[' :: rest =>
      match skipSpace rest with
      | ']' :: rest => some (.list [], rest)
      | rest => (readItems? fuel rest).map fun (xs, r) => (.list xs, r)
    | '\x7b' :: rest =>
      match skipSpace rest with
      | '\x7d' :: rest => some (.map [], rest)
      | rest => (readEntries? fuel rest).map fun (es, r) => (.map (Entries.ofList es), r)
    | rest =>
      match readWord? rest with
      | some (s, r) => some (.scalar s, r)
      | none => (readNumber? rest).map fun (s, r) => (.scalar s, r)

/-- The items of a list up to its closing bracket. -/
def readItems? : Nat → List Char → Option (List Value × List Char)
  | 0, _ => none
  | fuel + 1, s => do
    let (x, rest) ← readValue? fuel s
    match skipSpace rest with
    | ',' :: rest =>
      let (xs, rest) ← readItems? fuel rest
      some (x :: xs, rest)
    | ']' :: rest => some ([x], rest)
    | _ => none

/-- The entries of a mapping up to its closing brace. -/
def readEntries? : Nat → List Char → Option (List (Scalar × Value) × List Char)
  | 0, _ => none
  | fuel + 1, s =>
    match skipSpace s with
    | '"' :: rest => do
      let (k, rest) ← readText? (rest.length + 1) [] rest
      match skipSpace rest with
      | ':' :: rest =>
        let (v, rest) ← readValue? fuel rest
        match skipSpace rest with
        | ',' :: rest =>
          let (es, rest) ← readEntries? fuel rest
          some ((.text k, v) :: es, rest)
        | '\x7d' :: rest => some ([(.text k, v)], rest)
        | _ => none
      | _ => none
    | _ => none

end

/-- The value that a whole text writes. -/
def read? (text : String) : Option Value :=
  let s := text.toList
  match readValue? (2 * s.length + 2) s with
  | some (v, rest) => if (skipSpace rest).isEmpty then some v else none
  | none => none

end DepGraph.Json
