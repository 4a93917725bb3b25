import DepGraph.Number.Real64

/-!
# Values of settings and package descriptors

`Value` is what a settings file, a request or a package descriptor may hold: scalars, lists,
mappings that keep the order of their entries, and sets. Keys are scalars.

* `Value.truthy` — the values that count as given: everything but nulls, zeros and empties.
* `Scalar.sameKey` — when two keys name one entry: numbers and truth values go by their amount.
-/

set_option autoImplicit false

namespace DepGraph

/-- A point of the calendar with a time of day, and a distance from universal time in seconds if
one is given. -/
structure Timestamp where
  year : Nat
  month : Nat
  day : Nat
  hour : Nat
  minute : Nat
  second : Nat
  microsecond : Nat
  offset : Option Int
  deriving DecidableEq, Repr, Inhabited

/-- Values without parts. -/
inductive Scalar where
  | null
  | bool (b : Bool)
  | int (i : Int)
  | real (r : Real64)
  | text (s : String)
  | date (year month day : Nat)
  | timestamp (t : Timestamp)
  | bytes (content : List UInt8)
  deriving DecidableEq, Repr, Inhabited

/-- Values with any structure. Mappings and sets keep the order in which they were written. -/
inductive Value where
  | scalar (s : Scalar)
  | list (items : List Value)
  | map (entries : List (Scalar × Value))
  | set (members : List Scalar)
  deriving Repr, Inhabited

namespace Value

@[match_pattern] abbrev null : Value := .scalar .null
@[match_pattern] abbrev bool (b : Bool) : Value := .scalar (.bool b)
@[match_pattern] abbrev int (i : Int) : Value := .scalar (.int i)
@[match_pattern] abbrev real (r : Real64) : Value := .scalar (.real r)
@[match_pattern] abbrev text (s : String) : Value := .scalar (.text s)

/-! ## Equality is decidable -/

mutual

/-- Decides whether two values are equal. -/
def decEq : (a b : Value) → Decidable (a = b)
  | .scalar s, .scalar t =>
    if h : s = t then .isTrue (by rw [h]) else .isFalse (by intro e; cases e; exact h rfl)
  | .list xs, .list ys =>
    match decEqList xs ys with
    | .isTrue h => .isTrue (by rw [h])
    | .isFalse h => .isFalse (by intro e; cases e; exact h rfl)
  | .map xs, .map ys =>
    match decEqEntries xs ys with
    | .isTrue h => .isTrue (by rw [h])
    | .isFalse h => .isFalse (by intro e; cases e; exact h rfl)
  | .set xs, .set ys =>
    if h : xs = ys then .isTrue (by rw [h]) else .isFalse (by intro e; cases e; exact h rfl)
  | .scalar _, .list _ => .isFalse (by intro e; cases e)
  | .scalar _, .map _ => .isFalse (by intro e; cases e)
  | .scalar _, .set _ => .isFalse (by intro e; cases e)
  | .list _, .scalar _ => .isFalse (by intro e; cases e)
  | .list _, .map _ => .isFalse (by intro e; cases e)
  | .list _, .set _ => .isFalse (by intro e; cases e)
  | .map _, .scalar _ => .isFalse (by intro e; cases e)
  | .map _, .list _ => .isFalse (by intro e; cases e)
  | .map _, .set _ => .isFalse (by intro e; cases e)
  | .set _, .scalar _ => .isFalse (by intro e; cases e)
  | .set _, .list _ => .isFalse (by intro e; cases e)
  | .set _, .map _ => .isFalse (by intro e; cases e)

/-- Decides whether two lists of values are equal. -/
def decEqList : (xs ys : List Value) → Decidable (xs = ys)
  | [], [] => .isTrue rfl
  | [], _ :: _ => .isFalse (by intro e; cases e)
  | _ :: _, [] => .isFalse (by intro e; cases e)
  | x :: xs, y :: ys =>
    match decEq x y, decEqList xs ys with
    | .isTrue h, .isTrue h' => .isTrue (by rw [h, h'])
    | .isFalse h, _ => .isFalse (by intro e; cases e; exact h rfl)
    | _, .isFalse h => .isFalse (by intro e; cases e; exact h rfl)

/-- Decides whether two lists of entries are equal. -/
def decEqEntries : (xs ys : List (Scalar × Value)) → Decidable (xs = ys)
  | [], [] => .isTrue rfl
  | [], _ :: _ => .isFalse (by intro e; cases e)
  | _ :: _, [] => .isFalse (by intro e; cases e)
  | (j, x) :: xs, (k, y) :: ys =>
    match decEq x y, decEqEntries xs ys with
    | .isTrue h, .isTrue h' =>
      if hk : j = k then .isTrue (by rw [h, h', hk])
      else .isFalse (by intro e; cases e; exact hk rfl)
    | .isFalse h, _ => .isFalse (by intro e; cases e; exact h rfl)
    | _, .isFalse h => .isFalse (by intro e; cases e; exact h rfl)

end

instance : DecidableEq Value := decEq

end Value

/-! ## Keys -/

namespace Scalar

/-- The amount that a truth value or a whole number stands for among keys. -/
def amount? : Scalar → Option Int
  | .bool b => some (if b then 1 else 0)
  | .int i => some i
  | .real r => r.toInt?
  | _ => none

/-- Whether two keys name the same entry: equal scalars do, and so do truth values and numbers of
the same amount. -/
def sameKey (a b : Scalar) : Bool :=
  match a.amount?, b.amount? with
  | some m, some n => m == n
  | none, none => a == b
  | _, _ => false

@[simp] theorem sameKey_text (s t : String) : sameKey (.text s) (.text t) = (s == t) := by
  rw [Bool.eq_iff_iff]
  simp [sameKey, amount?]

/-- Whether the scalar counts as given. -/
def truthy : Scalar → Bool
  | .null => false
  | .bool b => b
  | .int i => i != 0
  | .real r => !r.isZero
  | .text s => s != ""
  | .date .. => true
  | .timestamp _ => true
  | .bytes content => !content.isEmpty

end Scalar

namespace Value

/-- Whether the value counts as given: not null, false, zero or empty. -/
def truthy : Value → Bool
  | .scalar s => s.truthy
  | .list items => !items.isEmpty
  | .map entries => !entries.isEmpty
  | .set members => !members.isEmpty

/-- The entries of a mapping. -/
def entries? : Value → Option (List (Scalar × Value))
  | .map entries => some entries
  | _ => none

/-- The text of a text. -/
def text? : Value → Option String
  | .text s => some s
  | _ => none

end Value

end DepGraph
