import DepGraph.Yaml.Node
import DepGraph.Text.Digit

/-!
# What a plain scalar is

A plain scalar without a tag is a number, a truth value, a date or nothing at all if its text has
the form of one, and a text otherwise.

Main definitions: `isWhole`, `isFraction`, `Stamp.ofText?` (the form of dates), `Tag.ofPlain`.
-/

set_option autoImplicit false

namespace DepGraph.Yaml

/-- A digit, or the separator that may stand between digits. -/
def isDigitOrLine (c : Char) : Bool := c.isDigit || c == '_'

/-- The text without a sign at its start. -/
def dropSign : List Char → List Char
  | '-' :: s => s
  | '+' :: s => s
  | s => s

/-- Whether a text is a digit of the first kind followed by characters of the second. -/
def startsAndStays (first more : Char → Bool) : List Char → Bool
  | [] => false
  | c :: s => first c && s.all more

/-- A part of a number to the base sixty: one digit, or two below sixty. -/
def isSixtieth : List Char → Bool
  | [c] => c.isDigit
  | [c, d] => '0' ≤ c && c ≤ '5' && d.isDigit
  | _ => false

/-- The parts of a text between colons. -/
def colonParts (s : List Char) : List (List Char) := s.splitOn ':'

def isNonzeroDigit (c : Char) : Bool := '1' ≤ c && c ≤ '9'

/-- The form of whole numbers: to the base two, eight, sixteen, ten or sixty. -/
def isWhole (s : List Char) : Bool :=
  match dropSign s with
  | ['0'] => true
  | '0' :: 'b' :: s => !s.isEmpty && s.all fun c => c == '0' || c == '1' || c == '_'
  | '0' :: 'x' :: s => !s.isEmpty && s.all fun c =>
      isDigitOrLine c || ('a' ≤ c && c ≤ 'f') || ('A' ≤ c && c ≤ 'F')
  | '0' :: s => s.all fun c => ('0' ≤ c && c ≤ '7') || c == '_'
  | s =>
    match colonParts s with
    | [digits] => startsAndStays isNonzeroDigit isDigitOrLine digits
    | digits :: parts => startsAndStays isNonzeroDigit isDigitOrLine digits && parts.all isSixtieth
    | [] => false

/-- The form of exponents: nothing, or a mark, a sign and digits. -/
def isExponent : List Char → Bool
  | [] => true
  | mark :: sign :: digits =>
    (mark == 'e' || mark == 'E') && (sign == '-' || sign == '+') && !digits.isEmpty &&
      digits.all Char.isDigit
  | _ => false

/-- The form of numbers with a point, of infinities, and of what is not a number. -/
def isFraction (s : List Char) : Bool :=
  match s with
  | '.' :: rest =>
    [".inf", ".Inf", ".INF", ".nan", ".NaN", ".NAN"].contains (String.ofList s) ||
      (startsAndStays Char.isDigit isDigitOrLine (rest.takeWhile isDigitOrLine) &&
        isExponent (rest.dropWhile isDigitOrLine))
  | s =>
    match dropSign s with
    | '.' :: rest => ["inf", "Inf", "INF"].contains (String.ofList rest)
    | s =>
      let whole := s.takeWhile (· != '.')
      match s.dropWhile (· != '.') with
      | _ :: rest =>
        match colonParts whole with
        | [digits] => startsAndStays Char.isDigit isDigitOrLine digits &&
            isExponent (rest.dropWhile isDigitOrLine)
        | digits :: parts => startsAndStays Char.isDigit isDigitOrLine digits &&
            parts.all isSixtieth && rest.all isDigitOrLine
        | [] => false
      | [] => false

/-! ## Dates -/

/-- A zone as it is written: the universal one, or a distance with its sign. -/
inductive Zone where
  | universal
  | distance (negative : Bool) (hours minutes : Nat)
  deriving DecidableEq, Repr

/-- A time of day as it is written. -/
structure Clock where
  hour : Nat
  minute : Nat
  second : Nat
  fraction : List Char
  zone : Option Zone
  deriving DecidableEq, Repr

/-- A date as it is written. -/
structure Stamp where
  year : Nat
  month : Nat
  day : Nat
  clock : Option Clock
  deriving DecidableEq, Repr

namespace Stamp

/-- Between `least` and `most` digits at the start, as a number, with the rest. -/
def digits? (least most : Nat) (s : List Char) : Option (Nat × List Char) :=
  let taken := (s.take most).takeWhile Char.isDigit
  if taken.length < least then none
  else some (Text.natOfDigits taken, s.drop taken.length)

/-- The given character at the start. -/
def mark? (c : Char) : List Char → Option (List Char)
  | d :: s => if d == c then some s else none
  | [] => none

/-- The blanks that may stand before a time or a zone. -/
def isGap (c : Char) : Bool := c == ' ' || c == '\t'

/-- A zone after its blanks. -/
def zone? (s : List Char) : Option (Option Zone) :=
  match s, s.dropWhile isGap with
  | [], _ => some none
  | _, ['Z'] => some (some .universal)
  | _, sign :: s => do
    if sign != '-' && sign != '+' then none
    let (hours, s) ← digits? 1 2 s
    match s with
    | [] => some (some (.distance (sign == '-') hours 0))
    | s =>
      let (minutes, s) ← digits? 2 2 (← mark? ':' s)
      if s.isEmpty then some (some (.distance (sign == '-') hours minutes)) else none
  | _, [] => none

/-- A time of day with its zone. -/
def clock? (s : List Char) : Option Clock := do
  let (hour, s) ← digits? 1 2 s
  let (minute, s) ← digits? 2 2 (← mark? ':' s)
  let (second, s) ← digits? 2 2 (← mark? ':' s)
  let (fraction, s) := match s with
    | '.' :: s => (s.takeWhile Char.isDigit, s.dropWhile Char.isDigit)
    | s => ([], s)
  return ⟨hour, minute, second, fraction, ← zone? s⟩

/-- The start of a time of day: the letter or the blanks between it and the date. -/
def afterDate? (s : List Char) : Option (List Char) :=
  match s with
  | 'T' :: s => some s
  | 't' :: s => some s
  | c :: s => if isGap c then some (s.dropWhile isGap) else none
  | [] => none

/-- The form of dates, with or without a time of day. -/
def ofText? (s : List Char) : Option Stamp := do
  let (year, s) ← digits? 4 4 s
  let (month, s) ← digits? 1 2 (← mark? '-' s)
  let (day, s) ← digits? 1 2 (← mark? '-' s)
  match s with
  | [] => return ⟨year, month, day, none⟩
  | s => return ⟨year, month, day, some (← clock? (← afterDate? s))⟩

end Stamp

/-- Whether a text without a tag is a date: month and day need two digits unless a time follows. -/
def isPlainDate (s : List Char) : Bool :=
  match Stamp.ofText? s with
  | some stamp => stamp.clock.isSome || s.length == 10
  | none => false

/-! ## The tag of a plain scalar -/

/-- The words for truth values: all small, all large, or with a large first letter. -/
def truthWords : List String :=
  ["yes", "Yes", "YES", "no", "No", "NO", "true", "True", "TRUE", "false", "False", "FALSE", "on",
    "On", "ON", "off", "Off", "OFF"]

/-- The text without the line feed at its end, if there is one. -/
def dropFinalBreak (s : List Char) : List Char :=
  if s.getLast? == some '\n' then s.dropLast else s

/-- The tag that a text suggests. -/
def Tag.ofPlain (text : String) : Tag :=
  if text.isEmpty then .null
  else
    let s := dropFinalBreak text.toList
    let word := String.ofList s
    if truthWords.contains word then .bool
    else if isFraction s then .float
    else if isWhole s then .int
    else if word == "<<" then .merge
    else if ["~", "null", "Null", "NULL"].contains word then .null
    else if isPlainDate s then .timestamp
    else if word == "=" then .value
    else .text

end DepGraph.Yaml
