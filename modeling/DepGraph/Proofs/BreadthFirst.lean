import DepGraph.Proofs.Merging

/-!
# Breadth-first order

Level 0 holds the distinct entries; the next level holds what the files of a level list and no level
so far holds, in order of first occurrence.

* `BreadthFirst.level`, `BreadthFirst.before` — a level, and all levels before it in order.
* `BreadthFirst.nodup_before` — no name is on two levels.
* `BreadthFirst.before_eq_of_level_nil` — behind an empty level there is nothing.
-/

set_option autoImplicit false

namespace DepGraph

namespace BreadthFirst

mutual

/-- A level of the breadth-first search from the entries, where each file lists others. -/
def level (list : String → List String) (entries : List String) : Nat → List String
  | 0 => entries.eraseDups
  | k + 1 =>
    (((level list entries k).flatMap list).filter fun name =>
      name ∉ before list entries k ++ level list entries k).eraseDups

/-- All levels before a level, one after the other. -/
def before (list : String → List String) (entries : List String) : Nat → List String
  | 0 => []
  | k + 1 => before list entries k ++ level list entries k

end

variable {list : String → List String} {entries : List String}

@[simp] theorem level_zero : level list entries 0 = entries.eraseDups := rfl

theorem level_succ (k : Nat) : level list entries (k + 1) =
    (((level list entries k).flatMap list).filter fun name =>
      name ∉ before list entries (k + 1)).eraseDups := rfl

@[simp] theorem before_zero : before list entries 0 = [] := rfl

theorem before_succ (k : Nat) :
    before list entries (k + 1) = before list entries k ++ level list entries k := rfl

theorem mem_level_succ {k : Nat} {name : String} : name ∈ level list entries (k + 1) ↔
    (∃ parent ∈ level list entries k, name ∈ list parent) ∧ name ∉ before list entries (k + 1) := by
  rw [level_succ, List.mem_eraseDups, List.mem_filter, List.mem_flatMap, decide_eq_true_iff]

theorem nodup_level (k : Nat) : (level list entries k).Nodup := by
  cases k <;> exact Dependencies.nodup_eraseDups _

/-- What is on a level is on none before it. -/
theorem not_mem_before {k : Nat} {name : String} (h : name ∈ level list entries k) :
    name ∉ before list entries k := by
  cases k with
  | zero => exact List.not_mem_nil
  | succ k => exact (mem_level_succ.mp h).2

/-- **No name is on two levels, or twice on one.** -/
theorem nodup_before (k : Nat) : (before list entries k).Nodup := by
  induction k with
  | zero => exact List.nodup_nil
  | succ k ih =>
    refine List.nodup_append.mpr ⟨ih, nodup_level k, ?_⟩
    rintro name hbefore _ hlevel rfl
    exact not_mem_before hlevel hbefore

/-- **Behind an empty level there is nothing.** -/
theorem before_eq_of_level_nil {n m : Nat} (h : level list entries n = []) (hm : n ≤ m) :
    level list entries m = [] ∧ before list entries m = before list entries n := by
  obtain ⟨d, rfl⟩ := Nat.exists_eq_add_of_le hm
  clear hm
  induction d with
  | zero => exact ⟨h, rfl⟩
  | succ d ih =>
    rw [← Nat.add_assoc]
    refine ⟨?_, by rw [before_succ, ih.1, ih.2, List.append_nil]⟩
    rw [level_succ, ih.1]
    rfl

end BreadthFirst

end DepGraph
