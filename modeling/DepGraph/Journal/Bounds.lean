import DepGraph.Value.Basic

/-!
# What can be written

A whole number is written in decimal digits only if it has not too many of them, and a value only if
it is not nested too deep.

Main definitions: `Bounds`, `Bounds.admits` (whole numbers), `Bounds.fits` (values).
-/

set_option autoImplicit false

namespace DepGraph.Journal

/-- How many digits a whole number may have, and how deep collections may be nested. -/
structure Bounds where
  digits : Nat := 4300
  depth : Nat := 1000
  deriving DecidableEq, Repr

namespace Bounds

/-- A whole number has few enough digits. -/
def admits (b : Bounds) (n : Int) : Bool := (Nat.toDigits 10 n.natAbs).length ≤ b.digits

def admitsScalar (b : Bounds) : Scalar → Bool
  | .int n => b.admits n
  | _ => true

/-- The numbers of a value have few enough digits, and its collections are nested no deeper than
given. -/
def fits (b : Bounds) : Nat → Value → Bool
  | _, .scalar s => b.admitsScalar s
  | 0, _ => false
  | depth + 1, .list items => items.all (b.fits depth)
  | depth + 1, .map entries => entries.all fun e => b.admitsScalar e.1 && b.fits depth e.2
  | _ + 1, .set members => members.all b.admitsScalar

/-- A value can be written. -/
def writable (b : Bounds) (v : Value) : Bool := b.fits b.depth v

variable (b : Bounds) (depth : Nat)

@[simp] theorem fits_scalar (s : Scalar) : b.fits depth (.scalar s) = b.admitsScalar s := by
  cases depth <;> rfl

@[simp] theorem fits_zero_list (items : List Value) : b.fits 0 (.list items) = false := rfl

@[simp] theorem fits_zero_map (entries : List (Scalar × Value)) :
    b.fits 0 (.map entries) = false := rfl

@[simp] theorem fits_list (items : List Value) :
    b.fits (depth + 1) (.list items) = items.all (b.fits depth) := rfl

@[simp] theorem fits_map (entries : List (Scalar × Value)) :
    b.fits (depth + 1) (.map entries) =
      entries.all fun e => b.admitsScalar e.1 && b.fits depth e.2 := rfl

@[simp] theorem admitsScalar_text (s : String) : b.admitsScalar (.text s) = true := rfl

end Bounds

end DepGraph.Journal
