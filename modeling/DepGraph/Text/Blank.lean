/-!
# Blank characters

`isBlank` is the white space of Unicode together with the four information separators.
-/

set_option autoImplicit false

namespace DepGraph.Text

/-- White space of every script: tab to carriage return, the information separators, the space,
next line, and the spaces and line or paragraph separators beyond Latin-1. -/
def isBlank (c : Char) : Bool :=
  let n := c.toNat
  (9 ≤ n && n ≤ 13) || (28 ≤ n && n ≤ 32) || n == 0x85 || n == 0xA0 || n == 0x1680 ||
  (0x2000 ≤ n && n ≤ 0x200A) || n == 0x2028 || n == 0x2029 || n == 0x202F || n == 0x205F ||
  n == 0x3000

/-- Removes the blank characters at both ends. -/
def strip (s : List Char) : List Char :=
  ((s.dropWhile isBlank).reverse.dropWhile isBlank).reverse

end DepGraph.Text
