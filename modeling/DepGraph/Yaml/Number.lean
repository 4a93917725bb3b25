import DepGraph.Number.Real64
import DepGraph.Text.Blank
import DepGraph.Text.Digit
import DepGraph.Yaml.Failure

/-!
# The numbers of a document

Main definitions: `wholeNumber` and `fraction` read a scalar that is tagged as a number, whatever
its form; `readWhole?` and `readReal?` read numerals of one base.
-/

set_option autoImplicit false

namespace DepGraph.Yaml

open DepGraph.Text

/-- The value of a digit or of a letter that counts as one. -/
def digitValue? (c : Char) : Option Nat :=
  if c.isDigit then some (c.toNat - 48)
  else if 'a' ≤ c ∧ c ≤ 'z' then some (c.toNat - 87)
  else if 'A' ≤ c ∧ c ≤ 'Z' then some (c.toNat - 55)
  else none

/-- The number that digits of a base write. -/
def digits? (base : Nat) (s : List Char) : Option Nat :=
  if s.isEmpty then none
  else s.foldl (fun acc c => do
    let n ← acc
    let d ← digitValue? c
    if d < base then some (n * base + d) else none) (some 0)

/-- The rest of a numeral after the letter of its base, if it has one. -/
def dropBaseMark (base : Nat) (s : List Char) : List Char :=
  match s with
  | '0' :: mark :: rest =>
    if (base == 2 && (mark == 'b' || mark == 'B')) || (base == 8 && (mark == 'o' || mark == 'O')) ||
        (base == 16 && (mark == 'x' || mark == 'X')) then rest
    else s
  | _ => s

/-- The sign of a numeral, and the rest of it. -/
def splitSign : List Char → Bool × List Char
  | '-' :: s => (true, s)
  | '+' :: s => (false, s)
  | s => (false, s)

/-- The most digits that a numeral to the base ten may have. -/
def digitLimit : Nat := 4300

/-- A whole number, with blanks around it and a sign. -/
def readWhole? (base : Nat) (s : List Char) : Option Int :=
  let (negative, s) := splitSign (plainDigits (strip s))
  let s := dropBaseMark base s
  if base == 10 && digitLimit < s.length then none
  else (digits? base s).map fun n => if negative then -(n : Int) else n

/-- A number with or without a point and an exponent, or a word for one that has no digits. -/
def readReal? (s : List Char) : Option Real64 :=
  let (negative, s) := splitSign (plainDigits (strip s))
  let word := String.ofList (s.map Char.toLower)
  if word == "inf" || word == "infinity" then some (.infinite negative)
  else if word == "nan" then some .notANumber
  else
    let whole := s.takeWhile Char.isDigit
    let s := s.dropWhile Char.isDigit
    let (places, s) := match s with
      | '.' :: s => (s.takeWhile Char.isDigit, s.dropWhile Char.isDigit)
      | s => ([], s)
    match digits? 10 (whole ++ places), s with
    | some n, [] => some (.ofDecimal negative n (-places.length))
    | some n, mark :: s =>
      let (down, s) := splitSign s
      if mark == 'e' || mark == 'E' then
        if s.all Char.isDigit then
          (digits? 10 s).map fun x =>
            let x : Int := if down then -x else x
            .ofDecimal negative n (x - places.length)
        else none
      else none
    | none, _ => none

/-- The numeral of a scalar without separators, and whether it is negative. -/
def numeral (text : String) : Bool × List Char :=
  splitSign (text.toList.filter (· != '_'))

/-- Parts of a number to the base sixty, put together. -/
def sixties (parts : List Int) : Int := parts.foldl (fun n d => n * 60 + d) 0

/-- The whole number that a scalar writes: to the base two, eight, sixteen, ten or sixty. -/
def wholeNumber (text : String) : Except Failure Int :=
  let (negative, s) := numeral text
  let found : Except Failure (Option Int) := match s with
    | [] => .error .emptyNumber
    | '0' :: 'b' :: digits => .ok (readWhole? 2 digits)
    | '0' :: 'x' :: digits => .ok (readWhole? 16 digits)
    | '0' :: _ => .ok (readWhole? 8 s)
    | s =>
      if s.contains ':' then .ok (((s.splitOn ':').mapM (readWhole? 10)).map sixties)
      else .ok (readWhole? 10 s)
  match found with
  | .ok (some n) => .ok (if negative then -n else n)
  | .ok none => .error .badValue
  | .error f => .error f

/-- Parts of a number to the base sixty, the last first, added up from there. -/
def addSixties (base : Nat) (sum : Real64) : List Real64 → Real64
  | [] => sum
  | d :: rest => addSixties (base * 60) (sum.add (d.mul (.ofInt base))) rest

/-- The number that a scalar writes: with a point, to the base sixty, or as a word. -/
def fraction (text : String) : Except Failure Real64 :=
  let written := text.toList.filter (· != '_')
  let (negative, s) := splitSign written
  if written.isEmpty then .error .emptyNumber
  else
    let word := String.ofList (s.map Char.toLower)
    let found : Option Real64 :=
      if word == ".inf" then some (.infinite false)
      else if word == ".nan" then some .notANumber
      else if s.contains ':' then
        ((s.splitOn ':').mapM readReal?).map fun parts =>
          addSixties 1 (.finite false 0 (-1074)) parts.reverse
      else readReal? s
    match found with
    | some r => .ok (if negative then r.neg else r)
    | none => .error .badValue

end DepGraph.Yaml
