import DepGraph.Number.Real64

/-!
# The shortest decimal that reads back

`Real64.shortest` finds, for a finite number other than zero, the decimal of fewest digits that
rounds to it, and among those the nearest one. `Real64.render` writes it: positional between
`1e-4` and `1e16`, with a mark and a signed exponent of at least two digits outside.
-/

set_option autoImplicit false

namespace DepGraph.Real64

/-- A positive number `m * 2 ^ e` as a quotient. -/
def ratio (m : Nat) (e : Int) : Nat × Nat :=
  if 0 ≤ e then (m * twoTo e.toNat, 1) else (m, twoTo (-e).toNat)

/-- The place `p` of the decimal point: `10 ^ (p - 1) ≤ num / den < 10 ^ p`. The search starts at
`p` and moves down by `fuel` places at most. -/
def pointPlace (num den : Nat) : Nat → Int → Int
  | 0, p => p
  | fuel + 1, p =>
    let q := p - 1
    let reaches : Bool :=
      if 0 ≤ q then den * tenTo q.toNat ≤ num else den ≤ num * tenTo (-q).toNat
    if reaches then p else pointPlace num den fuel q

/-- Whether the decimal `a * 10 ^ q` rounds to `m * 2 ^ e`: it lies between the midpoints to the
two neighbours, and on a midpoint only if the mantissa is even. -/
def readsBack (m : Nat) (e : Int) (a : Nat) (q : Int) : Bool :=
  -- everything in units of 2 ^ (e - 2), cleared of denominators
  let lower := if m = leastMantissa ∧ -1074 < e then 4 * m - 1 else 4 * m - 2
  let upper := 4 * m + 2
  let (unitNum, unitDen) := ratio 1 (e - 2)
  let (n, d) := if 0 ≤ q then (a * tenTo q.toNat, 1) else (a, tenTo (-q).toNat)
  let x := n * unitDen
  let y := d * unitNum
  if m % 2 = 0 then lower * y ≤ x && x ≤ upper * y else lower * y < x && x < upper * y

/-- The two neighbours of `num / den` on the grid of multiples of `10 ^ q`, nearer one first, a
tie to the even one. -/
def gridNeighbours (num den : Nat) (q : Int) : Nat × Nat :=
  let (n, d) := if 0 ≤ q then (num, den * tenTo q.toNat) else (num * tenTo (-q).toNat, den)
  let a := n / d
  let r := n % d
  if 2 * r < d ∨ (2 * r = d ∧ a % 2 = 0) then (a, a + 1) else (a + 1, a)

/-- Tries grids of more and more digits; `17` digits always suffice. -/
def shortestFrom (m : Nat) (e : Int) (num den : Nat) (p : Int) : Nat → Nat → Nat × Int
  | 0, n => ((gridNeighbours num den (p - n)).1, p - n)
  | fuel + 1, n =>
    let q := p - n
    let (near, far) := gridNeighbours num den q
    if readsBack m e near q then (near, q)
    else if readsBack m e far q then (far, q)
    else shortestFrom m e num den p fuel (n + 1)

/-- Digits `a` and exponent `q` of the shortest decimal `a * 10 ^ q` that rounds to the positive
number `m * 2 ^ e`. -/
def shortest (m : Nat) (e : Int) : Nat × Int :=
  let (num, den) := ratio m e
  let guess : Int := ((m.log2 : Int) + e + 1) * 30103 / 100000 + 2
  let p := pointPlace num den 4 guess
  shortestFrom m e num den p 16 1

/-! ## Text -/

/-- Zeros at the end of the digits do not count. -/
def dropTrailingZeros (digits : List Char) : List Char :=
  (digits.reverse.dropWhile (· == '0')).reverse

/-- The exponent after the mark: a sign and two digits or more. -/
def renderExponent (x : Int) : List Char :=
  let digits := Nat.toDigits 10 x.natAbs
  (if x < 0 then '-' else '+') :: (if digits.length < 2 then '0' :: digits else digits)

/-- Digits with the decimal point at place `p`, counted from their left end. -/
def renderDigits (digits : List Char) (p : Int) : List Char :=
  if p ≤ -4 ∨ 16 < p then
    let body := match digits with
      | [d] => [d]
      | d :: ds => d :: '.' :: ds
      | [] => []
    body ++ 'e' :: renderExponent (p - 1)
  else if p ≤ 0 then
    ['0', '.'] ++ List.replicate (-p).toNat '0' ++ digits
  else if digits.length ≤ p.toNat then
    digits ++ List.replicate (p.toNat - digits.length) '0' ++ ['.', '0']
  else
    digits.take p.toNat ++ '.' :: digits.drop p.toNat

/-- The text of a number: the shortest decimal, with a point or an exponent. -/
def render : Real64 → String
  | finite negative m e =>
    let sign := if negative then "-" else ""
    if m = 0 then sign ++ "0.0"
    else
      let (a, q) := shortest m e
      let all := Nat.toDigits 10 a
      let p : Int := all.length + q
      sign ++ String.ofList (renderDigits (dropTrailingZeros all) p)
  | infinite negative => if negative then "-inf" else "inf"
  | notANumber => "nan"

end DepGraph.Real64
