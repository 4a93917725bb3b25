import DepGraph.Value.Basic
import DepGraph.Yaml.Failure
import DepGraph.Yaml.PlainTag

/-!
# The dates of a document

A date that is written has a value only if the calendar has that day, the clock that time, and if
the zone lies less than a day from universal time.
-/

set_option autoImplicit false

namespace DepGraph.Yaml

def isLeapYear (year : Nat) : Bool := year % 4 == 0 && (year % 100 != 0 || year % 400 == 0)

/-- The number of days of a month. -/
def daysOfMonth (year month : Nat) : Nat :=
  if month == 2 then (if isLeapYear year then 29 else 28)
  else if [4, 6, 9, 11].contains month then 30
  else 31

/-- Whether the calendar has a day. -/
def isDay (year month day : Nat) : Bool :=
  1 ≤ year && year ≤ 9999 && 1 ≤ month && month ≤ 12 && 1 ≤ day && day ≤ daysOfMonth year month

/-- The millionths of a second that the digits after a point write. -/
def microseconds (digits : List Char) : Nat :=
  Text.natOfDigits ((digits ++ List.replicate 6 '0').take 6)

/-- The distance of a zone from universal time in seconds. -/
def Zone.seconds : Zone → Int
  | universal => 0
  | distance negative hours minutes =>
    let n : Int := (hours * 3600 + minutes * 60 : Nat)
    if negative then -n else n

/-- The value of a date that is written. -/
def Stamp.value (s : Stamp) : Except Failure Scalar :=
  match s.clock with
  | none =>
    if isDay s.year s.month s.day then .ok (.date s.year s.month s.day) else .error .badValue
  | some c =>
    let offset := c.zone.map Zone.seconds
    let inRange := isDay s.year s.month s.day && c.hour < 24 && c.minute < 60 && c.second < 60 &&
      (offset.map fun n => decide (n.natAbs < 86400)).getD true
    if inRange then
      .ok (.timestamp ⟨s.year, s.month, s.day, c.hour, c.minute, c.second,
        microseconds c.fraction, offset⟩)
    else .error .badValue

end DepGraph.Yaml
