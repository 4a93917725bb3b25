/-!
# Octets in sixty-four characters

`decodeBase64?` reads octets from groups of four characters of six bits each. Characters outside of
the alphabet are passed over, and a complete padding ends the text.
-/

set_option autoImplicit false

namespace DepGraph.Text

/-- The six bits that a character stands for. -/
def sextet? (c : Char) : Option Nat :=
  if 'A' ≤ c ∧ c ≤ 'Z' then some (c.toNat - 65)
  else if 'a' ≤ c ∧ c ≤ 'z' then some (c.toNat - 71)
  else if '0' ≤ c ∧ c ≤ '9' then some (c.toNat + 4)
  else if c == '+' then some 62
  else if c == '/' then some 63
  else none

/-- Reads octets. `place` is the number of characters of the current group, `left` holds their
bits that are not yet written, `pads` counts the padding, and `octets` is what was written, last
first. -/
def decodeGroups (place left pads : Nat) (octets : List UInt8) : List Char → Option (List UInt8)
  | [] => if place == 0 then some octets.reverse else none
  | c :: rest =>
    if c == '=' then
      if place ≥ 2 then
        if place + (pads + 1) ≥ 4 then some octets.reverse
        else decodeGroups place left (pads + 1) octets rest
      else decodeGroups place left pads octets rest
    else
      match sextet? c with
      | none => decodeGroups place left pads octets rest
      | some n =>
        match place with
        | 0 => decodeGroups 1 n 0 octets rest
        | 1 => decodeGroups 2 (n % 16) 0 ((left * 4 + n / 16).toUInt8 :: octets) rest
        | 2 => decodeGroups 3 (n % 4) 0 ((left * 16 + n / 4).toUInt8 :: octets) rest
        | _ => decodeGroups 0 0 0 ((left * 64 + n).toUInt8 :: octets) rest

/-- The octets that a text encodes. -/
def decodeBase64? (s : List Char) : Option (List UInt8) := decodeGroups 0 0 0 [] s

end DepGraph.Text
