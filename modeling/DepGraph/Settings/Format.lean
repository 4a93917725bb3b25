/-!
# Formats of settings files

Settings files are read in some format. Of its values only the mappings are looked into: these have
entries, and what is held by a mapping may be the mapping itself. To merge two mappings, those are
merged in turn that both hold under one key. Each of them takes a call, and only so many calls may
be nested.

Main definitions: `Reading` (what comes of reading a file), `Format`, `Format.mergeWithin`.
-/

set_option autoImplicit false

namespace DepGraph.Settings

/-- What comes of reading a file. -/
inductive Reading (V X : Type) where
  | value (v : V)
  /-- The file breaks a rule of the format, or cannot be read to its end. -/
  | malformed
  /-- Reading ends in any other way. -/
  | broken (failure : X)

/-- A format of files: how a file is read, and how the mappings among the values can be told, looked
into and made. -/
structure Format (K V X : Type) where
  read : ByteArray → Reading V X
  /-- The entries of a mapping. -/
  entries? : V → Option (List (K × V))
  /-- Whether a value that is no mapping counts as given. -/
  given : V → Bool
  mapping : List (K × V) → V
  entries?_mapping : ∀ es, entries? (mapping es) = some es
  /-- Whether two keys name the same entry. -/
  sameKey : K → K → Bool

namespace Format

variable {K V X : Type} (f : Format K V X)

/-- The value under a key. -/
def get? (key : K) : List (K × V) → Option V
  | [] => none
  | (k, v) :: rest => if f.sameKey k key then some v else get? key rest

/-- Writes a value under a key: in place if the key is there, at the end otherwise. -/
def put (key : K) (value : V) : List (K × V) → List (K × V)
  | [] => [(key, value)]
  | (k, v) :: rest => if f.sameKey k key then (k, value) :: rest else (k, v) :: put key value rest

/-- Writes the entries of an overlay over those of a mapping, given what is to stand where there was
a value or none and the overlay gives one. -/
def mergeBy (combine : Option V → V → Except X V) (base : List (K × V)) :
    List (K × V) → Except X (List (K × V))
  | [] => .ok base
  | (k, v) :: rest =>
    match combine (f.get? k base) v with
    | .ok value => mergeBy combine (f.put k value base) rest
    | .error failure => .error failure

/-- The value that stands where `old` stood, once an overlay gives a value there. Two mappings are
merged, by one of the calls that may still be nested; where there are none left, that is the end. -/
def mergeValue (exhausted : X) (calls : Nat) (old : Option V) (v : V) : Except X V :=
  match old.bind f.entries?, f.entries? v with
  | some base, some overlay =>
    match calls with
    | 0 => .error exhausted
    | calls + 1 => (f.mergeBy (mergeValue exhausted calls) base overlay).map f.mapping
  | _, _ => .ok v

/-- The two mappings merged, the overlay winning, with so many nested calls at most. -/
def mergeWithin (exhausted : X) (calls : Nat) : List (K × V) → List (K × V) →
    Except X (List (K × V)) :=
  f.mergeBy (f.mergeValue exhausted calls)

@[simp] theorem mergeBy_nil (combine : Option V → V → Except X V) (base : List (K × V)) :
    f.mergeBy combine base [] = .ok base := rfl

@[simp] theorem mergeWithin_nil (exhausted : X) (calls : Nat) (base : List (K × V)) :
    f.mergeWithin exhausted calls base [] = .ok base := rfl

/-- Any value but a mapping replaces what stood in its place. -/
theorem mergeValue_of_leaf {v : V} (leaf : f.entries? v = none) (exhausted : X) (calls : Nat)
    (old : Option V) : f.mergeValue exhausted calls old v = .ok v := by
  rw [mergeValue, leaf]
  cases old.bind f.entries? <;> rfl

/-- Unless both are mappings, the value of the overlay stands. -/
theorem mergeValue_cases (old : Option V) (v : V) :
    (∀ exhausted calls, f.mergeValue exhausted calls old v = .ok v) ∨
      ∃ base overlay, old.bind f.entries? = some base ∧ f.entries? v = some overlay := by
  cases above : f.entries? v with
  | none => exact .inl fun exhausted calls => f.mergeValue_of_leaf above exhausted calls old
  | some overlay =>
    cases below : old.bind f.entries? with
    | none => exact .inl fun exhausted calls => by rw [mergeValue, below]
    | some base => exact .inr ⟨base, overlay, rfl, rfl⟩

theorem mergeValue_zero (exhausted : X) {old : Option V} {v : V} {base overlay : List (K × V)}
    (below : old.bind f.entries? = some base) (above : f.entries? v = some overlay) :
    f.mergeValue exhausted 0 old v = .error exhausted := by
  rw [mergeValue, below, above]

theorem mergeValue_succ (exhausted : X) (calls : Nat) {old : Option V} {v : V}
    {base overlay : List (K × V)} (below : old.bind f.entries? = some base)
    (above : f.entries? v = some overlay) :
    f.mergeValue exhausted (calls + 1) old v =
      (f.mergeWithin exhausted calls base overlay).map f.mapping := by
  rw [mergeValue, below, above]
  rfl

end Format

end DepGraph.Settings
