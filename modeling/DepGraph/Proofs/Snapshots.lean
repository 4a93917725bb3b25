import DepGraph.Proofs.Merging
import DepGraph.Registry

/-!
# A registry in use

Addresses are registered while any number of iterations are under way, nested or side by side, each
of which is asked for its next address whenever its user likes. An iteration goes over a snapshot,
so what is registered in its course does not reach it.

* `Registry.addresses_registerAll` — the content of a registry after some registrations;
* `Registry.Usage` — a registry with the iterations over it, and what each of them answers;
* `Registry.Usage.registry_after` — only registrations count for the content;
* `Registry.Usage.answers_eq` — what an iteration answers is told from what it has left;
* `Registry.grows_in_order` — **a registry is an ordered set that only grows**: content, snapshots,
  size, membership and iterations, at every moment of every use.
-/

set_option autoImplicit false

namespace DepGraph.Registry

/-! ## The content of a registry -/

theorem addresses_registerAll (r : Registry) (addresses : List String) :
    (r.registerAll addresses).addresses =
      r.addresses ++ (addresses.filter fun a => !r.addresses.contains a).eraseDups := by
  rw [← Dependencies.distinct_foldl]
  unfold registerAll
  induction addresses generalizing r with
  | nil => rfl
  | cons a rest ih =>
    rw [List.foldl_cons, List.foldl_cons, ih, addresses_register]
    simp only [List.contains_iff_mem]

/-- A registry that starts empty holds what was registered, each once. -/
theorem addresses_registerAll_empty (addresses : List String) :
    (empty.registerAll addresses).addresses = addresses.eraseDups := by
  rw [addresses_registerAll]
  simp [empty]

theorem registerAll_append (r : Registry) (before after : List String) :
    r.registerAll (before ++ after) = (r.registerAll before).registerAll after :=
  List.foldl_append

/-- An iteration registers one address for each that it visits, as long as there are some. -/
theorem iterateOver_eq (r : Registry) (seen additions : List String) :
    r.iterateOver seen additions = r.registerAll (additions.take seen.length) := by
  induction seen generalizing r additions with
  | nil => cases additions <;> rfl
  | cons a seen ih =>
    cases additions with
    | nil => rfl
    | cons b additions => exact ih (r.register b) additions

/-! ## Uses of a registry -/

/-- What is done with a registry: an address is registered, an iteration begins, or the iteration
with number `i` is asked for its next address. -/
inductive Use
  | register (address : String)
  | iterate
  | next (i : Nat)
  deriving DecidableEq, Repr

/-- The addresses that are registered by some uses, in order. -/
def registered (uses : List Use) : List String :=
  uses.filterMap fun
    | .register address => some address
    | _ => none

/-- The uses of a loop that visits `n` addresses and registers the next of `additions` at each: one
request for each address, and one more that ends the loop. -/
def loop (i : Nat) : Nat → List String → List Use
  | 0, _ => [.next i]
  | n + 1, address :: additions => .next i :: .register address :: loop i n additions
  | n + 1, [] => .next i :: loop i n []

theorem registered_loop (i n : Nat) (additions : List String) :
    registered (loop i n additions) = additions.take n := by
  induction n generalizing additions with
  | zero => rfl
  | succ n ih =>
    cases additions with
    | nil => simpa [loop, registered] using ih []
    | cons address additions => simpa [loop, registered] using ih additions

theorem count_loop (i n : Nat) (additions : List String) :
    (loop i n additions).count (.next i) = n + 1 := by
  induction n generalizing additions with
  | zero => simp [loop]
  | succ n ih =>
    cases additions with
    | nil => simp [loop, ih]
    | cons address additions => simp [loop, ih]

/-- A registry, and what each iteration over it has left to visit, in the order in which the
iterations began. -/
structure Usage where
  registry : Registry := .empty
  left : List (List String) := []
  deriving Repr

namespace Usage

/-- An iteration begins with all that is there, and a request takes one address off it. -/
def apply (u : Usage) : Use → Usage
  | .register address => { u with registry := u.registry.register address }
  | .iterate => { u with left := u.left ++ [u.registry.addresses] }
  | .next i => { u with left := u.left.modify i List.tail }

/-- The registry and its iterations after some uses. -/
def after (u : Usage) (uses : List Use) : Usage := uses.foldl apply u

/-- The next address of iteration `i`, if it has one left. -/
def next? (u : Usage) (i : Nat) : Option String := u.left[i]?.bind List.head?

/-- What iteration `i` answers in the course of some uses, request by request. -/
def answers (i : Nat) : Usage → List Use → List (Option String)
  | _, [] => []
  | u, a :: rest =>
    if a = .next i then u.next? i :: answers i (u.apply a) rest else answers i (u.apply a) rest

variable {i : Nat} {left : List String}

/-- **Only registrations count** for the content. -/
theorem registry_after (u : Usage) (uses : List Use) :
    (u.after uses).registry = u.registry.registerAll (registered uses) := by
  induction uses generalizing u with
  | nil => rfl
  | cons a uses ih =>
    refine (ih (u.apply a)).trans ?_
    cases a <;> rfl

theorem addresses_after (uses : List Use) :
    (({} : Usage).after uses).registry.addresses = (registered uses).eraseDups := by
  rw [registry_after]
  exact addresses_registerAll_empty _

/-- What is there stays in front of what comes. -/
theorem addresses_isPrefix (u : Usage) (uses : List Use) :
    u.registry.addresses <+: (u.after uses).registry.addresses := by
  rw [registry_after, addresses_registerAll]
  exact List.prefix_append _ _

/-- **A step of an iteration**: it has one address less to visit after a request, and what else is
done leaves it alone. -/
theorem left_apply {u : Usage} (h : u.left[i]? = some left) (a : Use) :
    (u.apply a).left[i]? = some (if a = .next i then left.tail else left) := by
  cases a with
  | register address => simpa [apply] using h
  | iterate =>
    have begun : i < u.left.length := (List.getElem?_eq_some_iff.1 h).1
    simpa [apply, List.getElem?_append_left begun] using h
  | next j =>
    by_cases same : j = i <;> simp [apply, h, same]

/-- **What an iteration answers**: to the first request the first address that it has left, and so
on, and nothing once it has visited all. -/
theorem answers_eq {u : Usage} (h : u.left[i]? = some left) (uses : List Use) :
    u.answers i uses = (List.range (uses.count (.next i))).map fun k => left[k]? := by
  -- Each request shortens what is left, so the induction is over any usage and any rest.
  induction uses generalizing u left with
  | nil => rfl
  | cons a uses ih =>
    have later := ih (left_apply h a)
    by_cases asked : a = .next i
    · have first : u.next? i = left[0]? := by
        rw [next?, h, ← List.head?_eq_getElem?]
        rfl
      rw [if_pos asked] at later
      rw [answers, if_pos asked, first, later, asked, List.count_cons_self,
        List.range_succ_eq_map, List.map_cons, List.map_map]
      simp only [List.getElem?_tail, Function.comp_def, Nat.succ_eq_add_one]
    · rw [if_neg asked] at later
      rw [answers, if_neg asked, later, List.count_cons_of_ne asked]

/-- An iteration that begins goes over all that is there. -/
theorem answers_iterate (u : Usage) (uses : List Use) :
    (u.apply .iterate).answers u.left.length uses =
      (List.range (uses.count (.next u.left.length))).map fun k => u.registry.addresses[k]? :=
  answers_eq List.getElem?_concat_length uses

/-- A loop visits all that was there when it began, and one more request ends it. -/
theorem answers_loop (u : Usage) (additions : List String) :
    (u.apply .iterate).answers u.left.length
        (loop u.left.length u.registry.size additions) =
      u.registry.addresses.map some ++ [none] := by
  rw [answers_iterate, count_loop, List.range_succ, List.map_append]
  congr 1
  · refine List.ext_getElem? fun k => ?_
    by_cases inside : k < u.registry.addresses.length <;> simp [size, inside]
  · simp [size]

end Usage

/-- **A registry is an ordered set that only grows**, however registrations and iterations come
together. At every moment it holds the distinct addresses registered so far in order of first
registration; what it holds stays in front of whatever it holds later; size and membership are those
of its content. An iteration that begins then answers its requests, whatever comes between them,
with the addresses of that content one by one, and with nothing after the last. A loop that registers
addresses as it goes along is a use of this kind. -/
theorem grows_in_order (before after : List Use) :
    let u := ({} : Usage).after before
    let i := u.left.length
    let content := u.registry.addresses
    content = (registered before).eraseDups ∧
    content <+: (u.after after).registry.addresses ∧
    u.registry.size = (registered before).eraseDups.length ∧
    (∀ address, u.registry.contains address = true ↔ address ∈ registered before) ∧
    (u.apply .iterate).answers i after =
      ((List.range (after.count (.next i))).map fun k => content[k]?) ∧
    ∀ additions, let visits := loop i content.length additions
      (u.apply .iterate).answers i visits = (u.registry.iterate additions).1.map some ++ [none] ∧
      ((u.apply .iterate).after visits).registry = (u.registry.iterate additions).2 := by
  intro u i content
  have content_eq : content = (registered before).eraseDups := Usage.addresses_after before
  refine ⟨content_eq, u.addresses_isPrefix after, ?_, fun address => ?_, u.answers_iterate after,
    fun additions => ⟨u.answers_loop additions, ?_⟩⟩
  · exact congrArg List.length content_eq
  · rw [contains_iff, show u.registry.addresses = _ from content_eq, List.mem_eraseDups]
  · rw [Usage.registry_after, registered_loop]
    exact (iterateOver_eq u.registry content additions).symm

/-- An iteration within another one: each goes over what was there when it began. -/
example :
    let uses := [.iterate, .next 0, .register "b", .iterate, .next 1, .next 1, .next 1, .next 0]
    let u := ({} : Usage).after [.register "a"]
    u.answers 0 uses = [some "a", none] ∧ u.answers 1 uses = [some "a", some "b", none] := by
  decide

end DepGraph.Registry
