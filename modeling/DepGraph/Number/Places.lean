import DepGraph.Number.Shortest

/-!
# Numbers with a fixed count of digits

The three ways to write the magnitude of a number with a chosen precision: with so many places
after the point, with one digit before the point and an exponent, or with so many digits in
whichever of the two forms is shorter. Rounding is exact, a tie going to the even digit.
-/

set_option autoImplicit false

namespace DepGraph.Real64

/-- The nearest whole number to `num / den * 10 ^ q`. -/
def scaledRound (num den : Nat) (q : Int) : Nat :=
  if 0 ≤ q then roundDiv (num * tenTo q.toNat) den else roundDiv num (den * tenTo (-q).toNat)

/-- Digits with `places` of them after the point; a point without places only if `point` asks. -/
def withPoint (point : Bool) (places : Nat) (digits : List Char) : List Char :=
  let digits := List.replicate (places + 1 - digits.length) '0' ++ digits
  let whole := digits.take (digits.length - places)
  if places == 0 then (if point then whole ++ ['.'] else whole)
  else whole ++ '.' :: digits.drop (digits.length - places)

/-- A number with `places` digits after the point. -/
def fixedText (point : Bool) (places num den : Nat) : List Char :=
  withPoint point places (Nat.toDigits 10 (scaledRound num den places))

/-- The digits of a number rounded to `count` digits, and the exponent of the first of them. -/
def leadingDigits (count num den : Nat) : List Char × Int :=
  if num == 0 then (List.replicate count '0', 0)
  else
    let guess : Int := floorLog2 num den * 30103 / 100000 + 3
    let first := pointPlace num den 6 guess - 1
    let digits := Nat.toDigits 10 (scaledRound num den (count - 1 - first))
    -- rounding up to the next power of ten gives one digit too many
    if count < digits.length then (digits.take count, first + 1) else (digits, first)

/-- Digits with a point after the first of them, and an exponent. -/
def withExponent (point : Bool) (digits : List Char) (exponent : Int) : List Char :=
  let body := match digits with
    | [d] => if point then [d, '.'] else [d]
    | d :: ds => d :: '.' :: ds
    | [] => []
  body ++ 'e' :: renderExponent exponent

/-- A number with one digit before the point and `places` after it. -/
def scientificText (point : Bool) (places num den : Nat) : List Char :=
  let (digits, exponent) := leadingDigits (places + 1) num den
  withExponent point digits exponent

/-- A number with `count` digits: without an exponent if it lies between `1e-4` and `10 ^ count`.
Zeros at the end are left out unless `point` asks for them. -/
def generalText (point : Bool) (count num den : Nat) : List Char :=
  let count := max count 1
  let (digits, exponent) := leadingDigits count num den
  let kept (ds : List Char) := if point then ds else dropTrailingZeros ds
  if -4 ≤ exponent ∧ exponent < count then
    if exponent < 0 then
      '0' :: '.' :: List.replicate (-exponent - 1).toNat '0' ++ kept digits
    else
      let whole := digits.take (exponent.toNat + 1)
      match kept (digits.drop (exponent.toNat + 1)) with
      | [] => if point then whole ++ ['.'] else whole
      | places => whole ++ '.' :: places
  else
    match digits with
    | d :: ds => withExponent point (d :: kept ds) exponent
    | [] => []

end DepGraph.Real64
