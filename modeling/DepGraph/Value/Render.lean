import DepGraph.Value.Basic
import DepGraph.Text.Quoted
import DepGraph.Number.Shortest

/-!
# Values in messages

`Value.render` writes a value the way messages quote it; `Value.message` is the same except that a
bare text stands without quotation marks.
-/

set_option autoImplicit false

namespace DepGraph

/-- A number with as many leading zeros as bring it to `width` digits. -/
def padded (width n : Nat) : String :=
  let digits := Nat.toDigits 10 n
  String.ofList (List.replicate (width - digits.length) '0' ++ digits)

/-- One octet of quoted octets. -/
def octetChars (b : UInt8) : List Char :=
  let n := b.toNat
  if n == 92 then ['\\', '\\']
  else if n == 9 then ['\\', 't']
  else if n == 10 then ['\\', 'n']
  else if n == 13 then ['\\', 'r']
  else if 32 ≤ n && n < 127 then [Char.ofNat n]
  else ['\\', 'x'] ++ Text.hexDigits 2 n

/-- Octets between quotation marks. -/
def renderBytes (content : List UInt8) : String :=
  let mark := if content.contains 39 && !content.contains 34 then '"' else '\''
  let body := content.flatMap fun b =>
    if b.toNat == mark.toNat then ['\\', mark] else octetChars b
  String.ofList ('b' :: mark :: body ++ [mark])

/-- A distance from universal time as the message form of a zone. -/
def renderZone (seconds : Int) : String :=
  if seconds = 0 then "datetime.timezone.utc"
  else
    let days := Int.fdiv seconds 86400
    let rest := Int.fmod seconds 86400
    let parts := (if days = 0 then [] else ["days=" ++ toString days]) ++
      (if rest = 0 then [] else ["seconds=" ++ toString rest])
    "datetime.timezone(datetime.timedelta(" ++ String.intercalate ", " parts ++ "))"

namespace Scalar

/-- A scalar as messages quote it. -/
def render : Scalar → String
  | .null => "None"
  | .bool b => if b then "True" else "False"
  | .int i => toString i
  | .real r => r.render
  | .text s => Text.quote s
  | .date y m d => "datetime.date(" ++ toString y ++ ", " ++ toString m ++ ", " ++ toString d ++ ")"
  | .timestamp t =>
    let fields := [t.year, t.month, t.day, t.hour, t.minute] ++
      (if t.second = 0 ∧ t.microsecond = 0 then [] else [t.second]) ++
      (if t.microsecond = 0 then [] else [t.microsecond])
    let zone := match t.offset with
      | none => []
      | some seconds => ["tzinfo=" ++ renderZone seconds]
    "datetime.datetime(" ++ String.intercalate ", " (fields.map toString ++ zone) ++ ")"
  | .bytes content => renderBytes content

end Scalar

namespace Value

mutual

/-- A value as messages quote it. -/
def render : Value → String
  | .scalar s => s.render
  | .list items => "[" ++ renderItems items ++ "]"
  | .map entries => "\x7b" ++ renderEntries entries ++ "\x7d"
  | .set members =>
    if members.isEmpty then "set()"
    else "\x7b" ++ String.intercalate ", " (members.map Scalar.render) ++ "\x7d"

/-- Items separated by commas. -/
def renderItems : List Value → String
  | [] => ""
  | [x] => render x
  | x :: y :: rest => render x ++ ", " ++ renderItems (y :: rest)

/-- Entries separated by commas. -/
def renderEntries : List (Scalar × Value) → String
  | [] => ""
  | [(k, v)] => k.render ++ ": " ++ render v
  | (k, v) :: e :: rest => k.render ++ ": " ++ render v ++ ", " ++ renderEntries (e :: rest)

end

/-- A value as messages show it: a bare text stands as it is. -/
def message : Value → String
  | .text s => s
  | v => v.render

end Value

/-! ## Dates in their standard form -/

/-- The standard form of a date. -/
def isoDate (year month day : Nat) : String :=
  padded 4 year ++ "-" ++ padded 2 month ++ "-" ++ padded 2 day

/-- The distance from universal time in its standard form. -/
def isoOffset (seconds : Int) : String :=
  let n := seconds.natAbs
  let tail := if n % 60 = 0 then "" else ":" ++ padded 2 (n % 60)
  (if seconds < 0 then "-" else "+") ++ padded 2 (n / 3600) ++ ":" ++ padded 2 (n / 60 % 60) ++ tail

/-- The standard form of a date with a time of day. -/
def Timestamp.iso (t : Timestamp) : String :=
  let fraction := if t.microsecond = 0 then "" else "." ++ padded 6 t.microsecond
  let zone := match t.offset with
    | none => ""
    | some seconds => isoOffset seconds
  isoDate t.year t.month t.day ++ "T" ++ padded 2 t.hour ++ ":" ++ padded 2 t.minute ++ ":" ++
    padded 2 t.second ++ fraction ++ zone

end DepGraph
