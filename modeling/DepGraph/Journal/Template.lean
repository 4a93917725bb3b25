import DepGraph.Journal.Bounds
import DepGraph.Number.Places
import DepGraph.Text.Digit
import DepGraph.Value.Entries
import DepGraph.Value.Render

/-!
# Message templates

A template is a text with placeholders. A placeholder starts with a percent sign, may name an
argument, set flags, a width and a precision, and ends with a letter that tells how the argument
is written. Two percent signs stand for one. A template can be filled in only if its placeholders
take exactly the arguments that are given, and these are within the bounds of what can be written.

Main definitions: `Template.parse?` (the pieces of a template), `Template.fill?` (the message).
-/

set_option autoImplicit false

namespace DepGraph.Journal

/-- A width or a precision: not given, a number, or the next argument. -/
inductive Extent where
  | unset
  | count (n : Nat)
  | argument
  deriving DecidableEq, Repr

/-- How a placeholder is laid out. -/
structure Flags where
  left : Bool := false
  sign : Bool := false
  blank : Bool := false
  alternate : Bool := false
  zero : Bool := false
  deriving DecidableEq, Repr

/-- The place of an argument in a template. -/
structure Placeholder where
  key : Option String
  flags : Flags
  width : Extent
  precision : Extent
  conversion : Char
  deriving DecidableEq, Repr

/-- A part of a template. -/
inductive Piece where
  | literal (text : List Char)
  | placeholder (p : Placeholder)
  deriving DecidableEq, Repr

namespace Template

/-! ## Reading a template -/

/-- The text up to the parenthesis that closes, with the rest; `depth` counts those that are open.
-/
def keyText? (depth : Nat) (acc : List Char) : List Char → Option (List Char × List Char)
  | [] => none
  | '(' :: s => keyText? (depth + 1) ('(' :: acc) s
  | ')' :: s =>
    match depth with
    | 0 => some (acc.reverse, s)
    | depth + 1 => keyText? depth (')' :: acc) s
  | c :: s => keyText? depth (c :: acc) s

/-- The flags at the start, with the rest. -/
def readFlags (flags : Flags) : List Char → Flags × List Char
  | '-' :: s => readFlags { flags with left := true } s
  | '+' :: s => readFlags { flags with sign := true } s
  | ' ' :: s => readFlags { flags with blank := true } s
  | '#' :: s => readFlags { flags with alternate := true } s
  | '0' :: s => readFlags { flags with zero := true } s
  | s => (flags, s)

/-- A number at the start, or an asterisk for the next argument; `default` stands for none. -/
def readExtent (default : Extent) (s : List Char) : Extent × List Char :=
  match s with
  | '*' :: s => (.argument, s)
  | s =>
    match s.takeWhile Char.isDigit with
    | [] => (default, s)
    | digits => (.count (Text.natOfDigits digits), s.dropWhile Char.isDigit)

/-- A placeholder after its percent sign, with the rest. -/
def readPlaceholder? (s : List Char) : Option (Placeholder × List Char) := do
  let (key, s) ← match s with
    | '(' :: s => (keyText? 0 [] s).map fun (key, s) => (some (String.ofList key), s)
    | s => some (none, s)
  let (flags, s) := readFlags {} s
  let (width, s) := readExtent .unset s
  let (precision, s) := match s with
    | '.' :: s => readExtent (.count 0) s
    | s => (.unset, s)
  let s := match s with
    | c :: rest => if c == 'h' || c == 'l' || c == 'L' then rest else s
    | [] => s
  match s with
  | conversion :: s => some (⟨key, flags, width, precision, conversion⟩, s)
  | [] => none

/-- The pieces of a template. Each takes at least one character, so that a `fuel` above the length
of the text suffices. -/
def pieces? : Nat → List Char → Option (List Piece)
  | 0, _ => none
  | _ + 1, [] => some []
  | fuel + 1, '%' :: '%' :: s => (pieces? fuel s).map (.literal ['%'] :: ·)
  | fuel + 1, '%' :: s => do
    let (p, s) ← readPlaceholder? s
    return .placeholder p :: (← pieces? fuel s)
  | fuel + 1, c :: s =>
    let text := (c :: s).takeWhile (· != '%')
    (pieces? fuel ((c :: s).dropWhile (· != '%'))).map (.literal text :: ·)

/-- The pieces of a template. -/
def parse? (template : String) : Option (List Piece) :=
  pieces? (template.length + 1) template.toList

/-! ## Writing an argument -/

/-- The text of an argument: a sign, a mark of its base, and the rest. -/
structure Field where
  sign : List Char := []
  mark : List Char := []
  body : List Char
  /-- Whether zeros may fill it up. -/
  numeric : Bool := false

/-- The sign of a number. -/
def signText (flags : Flags) (negative : Bool) : List Char :=
  if negative then ['-'] else if flags.sign then ['+'] else if flags.blank then [' '] else []

/-- A whole number to a base, with as many zeros as bring it to the precision. -/
def wholeField (flags : Flags) (precision : Option Nat) (conversion : Char) (n : Int) : Field :=
  let base := match conversion with
    | 'o' => 8
    | 'x' => 16
    | 'X' => 16
    | _ => 10
  let digits := Nat.toDigits base n.natAbs
  let digits := List.replicate (precision.getD 0 - digits.length) '0' ++ digits
  { sign := signText flags (n < 0)
    mark := if base != 10 && flags.alternate then ['0', conversion] else []
    body := if conversion == 'X' then digits.map Char.toUpper else digits
    numeric := true }

/-- A number of double precision. -/
def realField (flags : Flags) (precision : Option Nat) (conversion : Char) (r : Real64) : Field :=
  let places := precision.getD 6
  let (negative, text) := match r with
    | .infinite negative => (negative, ['i', 'n', 'f'])
    | .notANumber => (false, ['n', 'a', 'n'])
    | .finite negative m e =>
      let (num, den) := Real64.ratio m e
      (negative, match conversion.toLower with
        | 'e' => Real64.scientificText flags.alternate places num den
        | 'f' => Real64.fixedText flags.alternate places num den
        | _ => Real64.generalText flags.alternate places num den)
  { sign := signText flags negative
    body := if conversion.isUpper then text.map Char.toUpper else text
    numeric := true }

/-- The whole number that an argument stands for, a fraction being cut off. -/
def wholeOf? : Value → Option Int
  | .bool b => some (if b then 1 else 0)
  | .int i => some i
  | .real (.finite negative m e) =>
    let n : Int := if 0 ≤ e then m * twoTo e.toNat else (m / twoTo (-e).toNat : Nat)
    some (if negative then -n else n)
  | _ => none

/-- The whole number that an argument is. -/
def exactWhole? : Value → Option Int
  | .bool b => some (if b then 1 else 0)
  | .int i => some i
  | _ => none

/-- The number of double precision that an argument stands for. -/
def realOf? : Value → Option Real64
  | .real r => some r
  | v =>
    match (exactWhole? v).map Real64.ofInt with
    | some (.infinite _) => none
    | found => found

/-- The character that an argument stands for, by its code or by itself. -/
def charOf? : Value → Option Char
  | .text s =>
    match s.toList with
    | [c] => some c
    | _ => none
  | v =>
    match exactWhole? v with
    | some n => if h : 0 ≤ n ∧ n.toNat.isValidChar then some (Char.ofNatAux n.toNat h.2) else none
    | none => none

/-- A text with everything outside ASCII by number. -/
def asciiText (s : List Char) : List Char :=
  s.flatMap fun c => if c.toNat < 128 then [c] else Text.numericEscape c

/-- The field of an argument. -/
def field? (bounds : Bounds) (flags : Flags) (precision : Option Nat) (conversion : Char)
    (v : Value) : Option Field :=
  let text (s : List Char) : Option Field :=
    if bounds.writable v then some { body := match precision with
      | some n => s.take n
      | none => s }
    else none
  let decimal : Option Field :=
    match wholeOf? v with
    | some n => if bounds.admits n then some (wholeField flags precision conversion n) else none
    | none => none
  match conversion with
  | 's' => text v.message.toList
  | 'r' => text v.render.toList
  | 'a' => text (asciiText v.render.toList)
  | 'd' => decimal
  | 'i' => decimal
  | 'u' => decimal
  | 'o' => (exactWhole? v).map (wholeField flags precision conversion)
  | 'x' => (exactWhole? v).map (wholeField flags precision conversion)
  | 'X' => (exactWhole? v).map (wholeField flags precision conversion)
  | 'c' => (charOf? v).map fun c => { body := [c] }
  | c =>
    if ['e', 'E', 'f', 'F', 'g', 'G'].contains c then (realOf? v).map (realField flags precision c)
    else none

/-- A field brought to a width. -/
def Field.padded (f : Field) (flags : Flags) (width : Nat) : List Char :=
  let text := f.sign ++ f.mark ++ f.body
  let missing := width - text.length
  if flags.left then text ++ List.replicate missing ' '
  else if flags.zero && f.numeric then f.sign ++ f.mark ++ List.replicate missing '0' ++ f.body
  else List.replicate missing ' ' ++ text

/-! ## Filling in a template -/

/-- The arguments that are left, and those that can be taken by name. -/
structure Supply where
  left : List Value
  named : Option Entries

/-- The arguments of a message. A single mapping that is not empty gives its entries by name. -/
def Supply.ofArguments (arguments : List Value) : Supply :=
  match arguments with
  | [.map (e :: es)] => { left := arguments, named := some (e :: es) }
  | _ => { left := arguments, named := none }

/-- The next argument. -/
def Supply.take? (s : Supply) : Option (Value × Supply) :=
  match s.left with
  | v :: left => some (v, { s with left })
  | [] => none

/-- An extent as a number, taking it from the arguments if it asks for that. -/
def Supply.extent? (s : Supply) : Extent → Option (Option Int × Supply)
  | .unset => some (none, s)
  | .count n => some (some n, s)
  | .argument => do
    let (v, s) ← s.take?
    return (some (← exactWhole? v), s)

/-- Fields have to be shorter than this. -/
def extentLimit : Nat := 1000000000

/-- The text of a placeholder. -/
def fillPlaceholder? (bounds : Bounds) (s : Supply) (p : Placeholder) :
    Option (List Char × Supply) := do
  let s ← match p.key with
    | some key => do
      let v ← (← s.named).get? (.text key)
      pure { s with left := [v] }
    | none => pure s
  let (width, s) ← s.extent? p.width
  let (precision, s) ← s.extent? p.precision
  if extentLimit ≤ (width.getD 0).natAbs ∨ extentLimit ≤ (precision.getD 0).toNat then none
  let flags := if (width.getD 0) < 0 then { p.flags with left := true } else p.flags
  let (v, s) ← s.take?
  let f ← field? bounds flags (precision.map Int.toNat) p.conversion v
  return (f.padded flags (width.getD 0).natAbs, s)

/-- The text of pieces. No argument may be left over, unless they are taken by name. -/
def fillPieces? (bounds : Bounds) (s : Supply) : List Piece → Option (List Char)
  | [] => if s.left.isEmpty || s.named.isSome then some [] else none
  | .literal text :: rest => (fillPieces? bounds s rest).map (text ++ ·)
  | .placeholder p :: rest => do
    let (text, s) ← fillPlaceholder? bounds s p
    return text ++ (← fillPieces? bounds s rest)

/-- The message of a template with its arguments. Without arguments the template is the message. -/
def fill? (bounds : Bounds) (template : String) (arguments : List Value) : Option String :=
  if arguments.isEmpty then some template
  else do
    let pieces ← parse? template
    return String.ofList (← fillPieces? bounds (.ofArguments arguments) pieces)

end Template

end DepGraph.Journal
