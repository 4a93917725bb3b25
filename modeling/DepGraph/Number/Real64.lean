import DepGraph.Number.Power

/-!
# Numbers of double precision

`Real64` is a binary floating-point number as sign, whole mantissa and exponent, so that its
arithmetic is exact arithmetic on natural numbers followed by one rounding.

* `Real64.ofRatio` — the nearest number to a quotient, a tie going to the even mantissa.
* `Real64.add`, `Real64.mul` — exact sum and product, rounded once.
-/

set_option autoImplicit false

namespace DepGraph

/-- A number `± mantissa * 2 ^ exponent`, an infinity, or not a number. Finite numbers are built
by `Real64.ofRatio`, which keeps the mantissa below `2 ^ 53`, the exponent at least `-1074`, and
the mantissa at least `2 ^ 52` where the exponent allows it; so equal numbers are equal terms. -/
inductive Real64 where
  | finite (negative : Bool) (mantissa : Nat) (exponent : Int)
  | infinite (negative : Bool)
  | notANumber
  deriving DecidableEq, Repr, Inhabited

namespace Real64

/-! ## Rounding -/

/-- The quotient `num / den` rounded to the nearest whole number, a tie to the even one. -/
def roundDiv (num den : Nat) : Nat :=
  let q := num / den
  let r := num % den
  if 2 * r < den then q
  else if den < 2 * r then q + 1
  else if q % 2 = 0 then q else q + 1

/-- The whole exponent `e` with `2 ^ e ≤ num / den < 2 ^ (e + 1)`. -/
def floorLog2 (num den : Nat) : Int :=
  let guess : Int := (num.log2 : Int) - den.log2
  let least : Bool :=
    if 0 ≤ guess then den * twoTo guess.toNat ≤ num else den ≤ num * twoTo (-guess).toNat
  if least then guess else guess - 1

/-- The least mantissa of 53 bits. -/
def leastMantissa : Nat := 4503599627370496

/-- The number nearest to `num / den`, with the given sign. -/
def ofRatio (negative : Bool) (num den : Nat) : Real64 :=
  if num = 0 then .finite negative 0 (-1074)
  else
    let e := max (floorLog2 num den - 52) (-1074)
    let m :=
      if 0 ≤ e then roundDiv num (den * twoTo e.toNat) else roundDiv (num * twoTo (-e).toNat) den
    let (m, e) := if m = 2 * leastMantissa then (leastMantissa, e + 1) else (m, e)
    if 971 < e then .infinite negative else .finite negative m e

/-- The number nearest to `digits * 10 ^ exponent`. Exponents far outside the range of the format
are answered without computing the power. -/
def ofDecimal (negative : Bool) (digits : Nat) (exponent : Int) : Real64 :=
  if digits = 0 then .finite negative 0 (-1074)
  else
    let magnitude : Int := (digits.log2 : Int) / 4 + exponent
    if 400 < exponent ∧ 400 < magnitude then .infinite negative
    else if (digits.log2 : Int) + exponent < -400 then .finite negative 0 (-1074)
    else if 0 ≤ exponent then ofRatio negative (digits * tenTo exponent.toNat) 1
    else ofRatio negative digits (tenTo (-exponent).toNat)

/-- A whole number, rounded where it has more than 53 bits. -/
def ofInt (i : Int) : Real64 := ofRatio (i < 0) i.natAbs 1

/-! ## Tests -/

def isZero : Real64 → Bool
  | finite _ m _ => m == 0
  | _ => false

/-- The whole number that a finite number equals, if it is whole. -/
def toInt? : Real64 → Option Int
  | finite negative m e =>
    let magnitude : Option Nat :=
      if 0 ≤ e then some (m * twoTo e.toNat)
      else if m % twoTo (-e).toNat = 0 then some (m / twoTo (-e).toNat)
      else none
    magnitude.map fun n => if negative then -(n : Int) else n
  | _ => none

/-! ## Arithmetic -/

/-- The mantissa as a signed number at the smaller exponent `e`. -/
def scaledTo (negative : Bool) (m : Nat) (exponent e : Int) : Int :=
  let n : Int := m * twoTo (exponent - e).toNat
  if negative then -n else n

/-- The exact number `n * 2 ^ e` rounded; `zeroSign` is the sign of an exact zero. -/
def ofScaled (zeroSign : Bool) (n : Int) (e : Int) : Real64 :=
  if n = 0 then .finite zeroSign 0 (-1074)
  else if 0 ≤ e then ofRatio (n < 0) (n.natAbs * twoTo e.toNat) 1
  else ofRatio (n < 0) n.natAbs (twoTo (-e).toNat)

/-- The sum, rounded once. -/
def add : Real64 → Real64 → Real64
  | finite s₁ m₁ e₁, finite s₂ m₂ e₂ =>
    let e := min e₁ e₂
    ofScaled (s₁ && s₂) (scaledTo s₁ m₁ e₁ e + scaledTo s₂ m₂ e₂ e) e
  | infinite s₁, infinite s₂ => if s₁ = s₂ then infinite s₁ else notANumber
  | infinite s, finite .. => infinite s
  | finite .., infinite s => infinite s
  | _, _ => notANumber

/-- The product, rounded once. -/
def mul : Real64 → Real64 → Real64
  | finite s₁ m₁ e₁, finite s₂ m₂ e₂ =>
    let s := s₁ != s₂
    ofScaled s (scaledTo s (m₁ * m₂) 0 0) (e₁ + e₂)
  | infinite s₁, infinite s₂ => infinite (s₁ != s₂)
  | infinite s₁, finite s₂ m _ => if m = 0 then notANumber else infinite (s₁ != s₂)
  | finite s₁ m _, infinite s₂ => if m = 0 then notANumber else infinite (s₁ != s₂)
  | _, _ => notANumber

/-- The number with the other sign. -/
def neg : Real64 → Real64
  | finite s m e => finite (!s) m e
  | infinite s => infinite (!s)
  | notANumber => notANumber

end Real64

end DepGraph
