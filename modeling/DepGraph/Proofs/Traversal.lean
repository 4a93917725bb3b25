import Mathlib.Data.List.Nodup
import DepGraph.Source.Extract

/-!
# The walk over a source tree

`visit` goes through a stack of nodes. It comes to every node of a tree once, each before its parts
and these from left to right, and reports no string literal twice.

* `Node.at?` — the node at a place;
* `Node.placed` — all nodes with their places, by recursion over the tree;
* `examine` — the nodes that `visit` takes off its stack, with their places;
* `examine_eq` — what is still to be examined is what the trees on the stack hold;
* `Node.importedPlaces`, `Node.ambientPlaces` — the places of the literals that are reported;
* `Node.extract_traverses` — the walk is the recursive traversal.
-/

set_option autoImplicit false

namespace DepGraph.Source

/-- Where a node stands in a tree: from the root on, which part to go to. -/
abbrev Place := List Nat

namespace Node

variable {n m root : Node} {place rest : Place} {i : Nat}

/-! ## Places -/

/-- The node at a place. -/
def at? : Node → Place → Option Node
  | n, [] => some n
  | n, i :: place => n.children[i]?.bind (·.at? place)

@[simp] theorem at?_nil (n : Node) : n.at? [] = some n := rfl

theorem at?_cons (n : Node) (i : Nat) (place : Place) :
    n.at? (i :: place) = n.children[i]?.bind (·.at? place) := rfl

theorem at?_append (n : Node) (place rest : Place) :
    n.at? (place ++ rest) = (n.at? place).bind (·.at? rest) := by
  induction place generalizing n with
  | nil => rfl
  | cons i place ih =>
    rw [List.cons_append, at?_cons, at?_cons]
    cases n.children[i]? with
    | none => rfl
    | some c => exact ih c

/-- What holds of a node when it holds of its parts holds of every tree. -/
@[elab_as_elim]
theorem parts_induction {motive : Node → Prop}
    (step : ∀ n : Node, (∀ c ∈ n.children, motive c) → motive n) : ∀ n : Node, motive n
  | mk role kind text children =>
    step (mk role kind text children) fun c _ => parts_induction step c
termination_by n => sizeOf n
decreasing_by
  rename_i part
  have smaller : sizeOf c < sizeOf children := List.sizeOf_lt_of_mem part
  simp only [mk.sizeOf_spec]
  omega

/-! ## The recursive traversal -/

/-- The nodes of a tree below a place. -/
def under (place : Place) (e : Place × Node) : Place × Node := (place ++ e.1, e.2)

theorem under_self (place : Place) (n : Node) : under place ([], n) = (place, n) := by
  rw [under, List.append_nil]

theorem under_comp (place rest : Place) : under place ∘ under rest = under (place ++ rest) := by
  funext e
  rw [Function.comp, under, under, under, List.append_assoc]

/-- The parts of the node at a place, with their places. -/
def parts (place : Place) (n : Node) : List (Place × Node) :=
  n.children.zipIdx.map fun e => (place ++ [e.2], e.1)

theorem parts_map_snd (place : Place) (n : Node) : (n.parts place).map Prod.snd = n.children := by
  rw [parts, List.map_map]
  exact List.zipIdx_map_fst 0 n.children

/-- All nodes of a tree with their places, each before its parts and these from left to right. -/
def placed : Node → List (Place × Node)
  | mk role kind text children => ([], mk role kind text children) :: placedFrom 0 children
where
  /-- The nodes of several trees, of which the first is the part of number `i`. -/
  placedFrom (i : Nat) : List Node → List (Place × Node)
    | [] => []
    | n :: ns => n.placed.map (under [i]) ++ placedFrom (i + 1) ns

theorem placedFrom_eq (i : Nat) (ns : List Node) :
    placed.placedFrom i ns = (ns.zipIdx i).flatMap fun e => e.1.placed.map (under [e.2]) := by
  induction ns generalizing i with
  | nil => rfl
  | cons n ns ih => rw [placed.placedFrom, ih, List.zipIdx_cons, List.flatMap_cons]

theorem placed_eq (n : Node) :
    n.placed = ([], n) :: n.children.zipIdx.flatMap fun e => e.1.placed.map (under [e.2]) := by
  cases n
  rw [placed, placedFrom_eq]
  rfl

/-- The traversal holds the nodes of the tree at their places, and nothing else. -/
theorem mem_placed : (place, m) ∈ n.placed ↔ n.at? place = some m := by
  induction place generalizing n with
  | nil =>
    rw [placed_eq]
    simp [under, eq_comm]
  | cons i place ih =>
    rw [placed_eq, at?_cons, Option.bind_eq_some_iff]
    simp only [under, List.mem_cons, Prod.mk.injEq, reduceCtorEq, false_and, false_or,
      List.mem_flatMap, List.mem_map, Prod.exists, List.mem_zipIdx_iff_getElem?,
      List.cons_append, List.nil_append, List.cons.injEq]
    constructor
    · rintro ⟨c, j, part, q, m', found, ⟨rfl, rfl⟩, rfl⟩
      exact ⟨c, part, ih.mp found⟩
    · rintro ⟨c, part, found⟩
      exact ⟨c, i, part, place, m, ih.mpr found, ⟨rfl, rfl⟩, rfl⟩

/-- No place occurs twice. -/
theorem nodup_placed (n : Node) : (n.placed.map Prod.fst).Nodup := by
  induction n using parts_induction with
  | step n ih =>
    rw [placed_eq, List.map_cons, List.nodup_cons, List.map_flatMap, List.nodup_flatMap]
    refine ⟨by simp [under], fun ⟨c, i⟩ part => ?_, ?_⟩
    · have part : c ∈ n.children := List.fst_mem_of_mem_zipIdx part
      rw [List.map_map, show Prod.fst ∘ under [i] = (i :: ·) ∘ Prod.fst from rfl, ← List.map_map]
      exact (ih c part).map (List.cons_injective)
    · -- the places in two parts differ in their first number
      have distinct : n.children.zipIdx.Pairwise (·.2 ≠ ·.2) := by
        rw [← List.pairwise_map (f := Prod.snd) (R := (· ≠ ·)), List.zipIdx_map_snd]
        exact List.nodup_range'
      refine distinct.imp fun {a b} apart => ?_
      simp only [Function.onFun, List.disjoint_left, List.mem_map, under]
      rintro _ ⟨_, ⟨e, -, rfl⟩, rfl⟩ ⟨_, ⟨e', -, rfl⟩, same⟩
      exact apart (List.cons.inj same).1.symm

/-- Every node has its place. -/
theorem length_placed (n : Node) : n.placed.length = n.size := by
  induction n using parts_induction with
  | step n ih =>
    have counted (i : Nat) (ns : List Node) (each : ∀ c ∈ ns, c.placed.length = c.size) :
        (placed.placedFrom i ns).length = size.total ns := by
      induction ns generalizing i with
      | nil => rfl
      | cons c ns ih => 
        rw [placed.placedFrom, size.total, List.length_append, List.length_map,
          each c (List.mem_cons_self), ih _ fun d part => each d (List.mem_cons_of_mem c part)]
    rw [placed_eq, ← placedFrom_eq, List.length_cons, counted 0 _ ih, size_eq, Nat.add_comm]

/-- A tree contributes what its root does, and then what its parts do. -/
theorem findings_eq (n : Node) :
    n.findings = n.finding?.toList ++ n.children.flatMap findings := by
  have every (ns : List Node) : findings.all ns = ns.flatMap findings := by
    induction ns with
    | nil => rfl
    | cons c ns ih => rw [findings.all, ih, List.flatMap_cons]
  cases n
  rw [findings, every]
  rfl

/-- A tree contributes what its nodes contribute, in the order of the traversal. -/
theorem findings_eq_filterMap (n : Node) :
    n.findings = n.placed.filterMap (·.2.finding?) := by
  induction n using parts_induction with
  | step n ih =>
    have anywhere (place : Place) (c : Node) :
        (c.placed.map (under place)).filterMap (·.2.finding?) =
          c.placed.filterMap (·.2.finding?) := by
      rw [List.filterMap_map]
      rfl
    calc n.findings
        = n.finding?.toList ++ n.children.flatMap findings := findings_eq n
      _ = n.finding?.toList ++ (n.children.zipIdx.map Prod.fst).flatMap
            (fun c => c.placed.filterMap (·.2.finding?)) := by
          rw [List.zipIdx_map_fst, List.flatMap_congr ih]
      _ = n.placed.filterMap (·.2.finding?) := by
          rw [placed_eq, List.filterMap_cons, List.filterMap_flatMap, List.flatMap_map]
          simp only [anywhere]
          cases n.finding? <;> rfl

end Node

open Node

/-! ## The walk over a stack -/

/-- The nodes that are taken off a stack of nodes at their places, as `visit` does. -/
def examine : List (Place × Node) → List (Place × Node)
  | [] => []
  | (place, n) :: stack => (place, n) :: examine (n.parts place ++ stack)
termination_by stack => Node.size.total (stack.map Prod.snd)
decreasing_by
  rw [List.map_append, Node.total_append, Node.parts_map_snd, List.map_cons, Node.size.total]
  have whole : Prod.snd (place, n) = n := rfl
  rw [whole, Node.size_eq n]
  omega

/-- The nodes on a stack come with all that they hold, and one after the other. -/
theorem examine_eq (stack : List (Place × Node)) :
    examine stack = stack.flatMap fun e => e.2.placed.map (under e.1) := by
  fun_induction examine with
  | case1 => rfl
  | case2 place n stack ih => 
    have opened : (n.parts place).flatMap (fun e => e.2.placed.map (under e.1)) =
        (n.children.zipIdx.flatMap fun e => e.1.placed.map (under [e.2])).map (under place) := by
      rw [parts, List.flatMap_map, List.map_flatMap]
      refine List.flatMap_congr fun e _ => ?_
      rw [List.map_map, under_comp]
    rw [ih, List.flatMap_append, List.flatMap_cons, placed_eq, List.map_cons, opened, under_self]
    rfl

/-- What is found is what the nodes taken off the stack contribute. -/
theorem visit_eq (stack : List (Place × Node)) :
    visit (stack.map Prod.snd) = (examine stack).filterMap (·.2.finding?) := by
  fun_induction examine with
  | case1 => simp [visit]
  | case2 place n stack ih => 
    rw [List.map_cons, visit, List.filterMap_cons, ← parts_map_snd, ← List.map_append, ih]
    cases n.finding? <;> rfl

/-! ## The literals that are reported -/

namespace NodeKind

/-- The kinds of node that may contribute something. -/
def reports : NodeKind → Bool
  | .importStatement | .exportStatement | .requireClause | .call | .ambientDeclaration => true
  | _ => false

/-- The kinds of node of which a part names what is imported. -/
def namesSource : NodeKind → Bool
  | .importStatement | .exportStatement | .requireClause => true
  | _ => false

end NodeKind

namespace Node

variable {n m root : Node} {place rest : Place}

/-- The place of the first part in a role. -/
def rolePlace? (n : Node) (role : Role) : Option Place :=
  (n.children.findIdx? (·.role == some role)).map ([·])

/-- The place of the first named part of a kind. -/
def kindPlace? (n : Node) (kind : NodeKind) : Option Place :=
  (n.children.findIdx? fun c => c.isNamed && c.kind == kind).map ([·])

/-- A place, if a string literal stands there. -/
def stringAt? (n : Node) (place : Place) : Option Place :=
  if (n.at? place).any isString then some place else none

/-- Where a node has what names its import. -/
def sourcePlace? (n : Node) : Option Place :=
  match n.kind with
  | .importStatement | .exportStatement => n.rolePlace? .source
  | .requireClause => n.kindPlace? (.leaf .string)
  | .call =>
    match n.child? .function, n.child? .arguments with
    | some function, some arguments =>
      if function.kind == .importKeyword && arguments.namedChildren.length == 1 then
        (n.rolePlace? .arguments).bind fun place =>
          (arguments.kindPlace? (.leaf .string)).map (place ++ ·)
      else none
    | _, _ => none
  | _ => none

/-- Where a node has what names the ambient module it declares. -/
def modulePlace? (n : Node) : Option Place :=
  match n.kind with
  | .ambientDeclaration =>
    (n.firstOf? .module).bind fun module => (n.kindPlace? .module).bind fun place =>
      (module.rolePlace? .name).map (place ++ ·)
  | _ => none

/-- Where a node has the string literal that names its import. -/
def importedPlace? (n : Node) : Option Place := n.sourcePlace?.bind n.stringAt?

/-- Where a node has the string literal that names the ambient module it declares. -/
def ambientPlace? (n : Node) : Option Place := n.modulePlace?.bind n.stringAt?

/-- The places of the literals that the nodes of a tree have, by one way to find them. -/
def literals (literal? : Node → Option Place) (root : Node) : List Place :=
  root.placed.filterMap fun e => (literal? e.2).map (e.1 ++ ·)

/-- The places of the literals that name what a tree imports. -/
def importedPlaces (root : Node) : List Place := root.literals importedPlace?

/-- The places of the literals that name the ambient modules of a tree. -/
def ambientPlaces (root : Node) : List Place := root.literals ambientPlace?

theorem find?_eq_bind_findIdx? (ns : List Node) (p : Node → Bool) :
    ns.find? p = (ns.findIdx? p).bind fun i => ns[i]? := by
  induction ns with
  | nil => rfl
  | cons c ns ih =>
    rw [List.find?_cons, List.findIdx?_cons]
    cases p c with
    | true => rfl
    | false =>
      rw [ih]
      cases ns.findIdx? p <;> rfl

theorem at?_singleton (n : Node) (i : Nat) : n.at? [i] = n.children[i]? := by
  rw [at?_cons]
  cases n.children[i]? <;> rfl

theorem rolePlace?_bind_at? (n : Node) (role : Role) :
    (n.rolePlace? role).bind n.at? = n.child? role := by
  rw [rolePlace?, child?, find?_eq_bind_findIdx?, Option.bind_map]
  simp only [Function.comp_def, at?_singleton]

theorem kindPlace?_bind_at? (n : Node) (kind : NodeKind) :
    (n.kindPlace? kind).bind n.at? = n.firstOf? kind := by
  rw [kindPlace?, firstOf?, namedChildren, List.find?_filter, find?_eq_bind_findIdx?,
    Option.bind_map]
  simp only [Function.comp_def, at?_singleton, Bool.decide_and, Bool.decide_eq_true]

theorem stringAt?_bind_at? (n : Node) (place : Option Place) :
    (place.bind n.stringAt?).bind n.at? = (place.bind n.at?).bind asString? := by
  cases place with
  | none => rfl
  | some place =>
    rw [Option.bind_some, Option.bind_some, stringAt?]
    cases found : n.at? place with
    | none => rfl
    | some s =>
      rw [Option.any_some, Option.bind_some, asString?]
      split <;> simp [found]

/-- A part of a part. -/
theorem bind_at?_append {first second : Option Place} (found : first.bind n.at? = some m) :
    (first.bind fun place => second.map (place ++ ·)).bind n.at? = second.bind m.at? := by
  obtain ⟨place, rfl, here⟩ := Option.bind_eq_some_iff.mp found
  rw [Option.bind_some, Option.bind_map]
  refine congrArg _ (funext fun rest => ?_)
  rw [Function.comp, at?_append, here, Option.bind_some]

theorem kind_of_firstOf? {kind : NodeKind} (found : n.firstOf? kind = some m) : m.kind = kind := by
  have same := List.find?_some found
  exact beq_iff_eq.mp same

theorem firstOf?_bind_asString? (n : Node) :
    (n.firstOf? (.leaf .string)).bind asString? = n.firstOf? (.leaf .string) := by
  cases found : n.firstOf? (.leaf .string) with
  | none => rfl
  | some s =>
    have string : s.isString := beq_iff_eq.mpr (kind_of_firstOf? found)
    rw [Option.bind_some, asString?, if_pos string]

/-- The places are those of the literals that are read. -/
theorem importedPlace?_bind_at? (n : Node) : n.importedPlace?.bind n.at? = n.importedString? := by
  rw [importedPlace?, stringAt?_bind_at?]
  unfold sourcePlace? importedString?
  cases n.kind with
  | importStatement | exportStatement =>
    rw [rolePlace?_bind_at?]
    rfl
  | requireClause => rw [kindPlace?_bind_at?, firstOf?_bind_asString?]
  | call =>
    dsimp only
    cases n.child? .function with
    | none => rfl
    | some function =>
      cases called : n.child? .arguments with
      | none => rfl
      | some arguments =>
        dsimp only
        split
        · rw [← rolePlace?_bind_at?] at called
          rw [bind_at?_append called, kindPlace?_bind_at?, firstOf?_bind_asString?]
        · rfl
  | program | importKeyword | arguments | ambientDeclaration | module | expression | group _
  | leaf _ => rfl

theorem ambientPlace?_bind_at? (n : Node) : n.ambientPlace?.bind n.at? = n.ambientString? := by
  rw [ambientPlace?, stringAt?_bind_at?]
  unfold modulePlace? ambientString?
  cases n.kind with
  | ambientDeclaration =>
    dsimp only
    cases declared : n.firstOf? .module with
    | none => rfl
    | some module =>
      rw [← kindPlace?_bind_at?] at declared
      rw [Option.bind_some, bind_at?_append declared, rolePlace?_bind_at?]
      rfl
  | program | importStatement | exportStatement | requireClause | call | importKeyword | arguments
  | module | expression | group _ | leaf _ => rfl

/-- The place of a part is its number. -/
theorem part_of_index {o : Option Nat} {part : Option Node}
    (there : (o.map ([·])).bind n.at? = part) (found : o.map ([·]) = some place) :
    ∃ i, place = [i] ∧ n.children[i]? = part := by
  rw [found, Option.bind_some] at there
  obtain ⟨i, -, rfl⟩ := Option.map_eq_some_iff.mp found
  rw [at?_singleton] at there
  exact ⟨i, rfl, there⟩

theorem part_of_rolePlace? {role : Role} (found : n.rolePlace? role = some place) :
    ∃ i, place = [i] ∧ n.children[i]? = n.child? role :=
  part_of_index (n.rolePlace?_bind_at? role) found

theorem part_of_kindPlace? {kind : NodeKind} (found : n.kindPlace? kind = some place) :
    ∃ i, place = [i] ∧ n.children[i]? = n.firstOf? kind :=
  part_of_index (n.kindPlace?_bind_at? kind) found

/-- A literal is a string at its place. -/
theorem of_bind_stringAt? {first : Option Place} (found : first.bind n.stringAt? = some place) :
    first = some place ∧ ∃ s, n.at? place = some s ∧ s.isString := by
  obtain ⟨here, rfl, taken⟩ := Option.bind_eq_some_iff.mp found
  rw [stringAt?] at taken
  split at taken
  next string =>
    obtain rfl := Option.some.inj taken
    exact ⟨rfl, Option.any_eq_true _ _ |>.mp string⟩
  · cases taken

/-- A call has no argument list that is itself a node that names what is imported. -/
def Plain (n : Node) : Prop :=
  n.kind = .call → ∀ arguments ∈ n.child? .arguments, arguments.kind.namesSource = false

instance (n : Node) : Decidable n.Plain := inferInstanceAs (Decidable (_ → _))

theorem plain_of_placed (plain : ∀ e ∈ root.placed, e.2.Plain) (place : Place) (n : Node)
    (found : root.at? place = some n) : n.Plain :=
  plain (place, n) (mem_placed.mpr found)

/-- A node that names what is imported has its literal among its parts, and a call has it among the
parts of its argument list. -/
theorem shape_of_importedPlace? (plain : n.Plain) (found : n.importedPlace? = some place) :
    (∃ i, place = [i] ∧ n.kind.namesSource) ∨
      ∃ i j c, place = [i, j] ∧ n.children[i]? = some c ∧ c.kind.namesSource = false := by
  have found := (of_bind_stringAt? found).1
  unfold sourcePlace? at found
  split at found
  next statement =>
    obtain ⟨i, rfl, -⟩ := part_of_rolePlace? found
    exact .inl ⟨i, rfl, by rw [statement]; rfl⟩
  next statement =>
    obtain ⟨i, rfl, -⟩ := part_of_rolePlace? found
    exact .inl ⟨i, rfl, by rw [statement]; rfl⟩
  next clause =>
    obtain ⟨i, rfl, -⟩ := part_of_kindPlace? found
    exact .inl ⟨i, rfl, by rw [clause]; rfl⟩
  next call =>
    split at found
    next function arguments _ called =>
      split at found
      · obtain ⟨_, first, found⟩ := Option.bind_eq_some_iff.mp found
        obtain ⟨_, second, rfl⟩ := Option.map_eq_some_iff.mp found
        obtain ⟨i, rfl, part⟩ := part_of_rolePlace? first
        obtain ⟨j, rfl, -⟩ := part_of_kindPlace? second
        exact .inr ⟨i, j, arguments, rfl, part.trans called, plain call arguments called⟩
      · cases found
    · cases found
  · cases found

/-- A declaration has its literal among the parts of its module. -/
theorem shape_of_ambientPlace? (found : n.ambientPlace? = some place) :
    ∃ i j c, place = [i, j] ∧ n.children[i]? = some c ∧ c.kind.namesSource = false := by
  have found := (of_bind_stringAt? found).1
  unfold modulePlace? at found
  split at found
  · obtain ⟨module, declared, found⟩ := Option.bind_eq_some_iff.mp found
    obtain ⟨_, first, found⟩ := Option.bind_eq_some_iff.mp found
    obtain ⟨_, second, rfl⟩ := Option.map_eq_some_iff.mp found
    obtain ⟨i, rfl, part⟩ := part_of_kindPlace? first
    obtain ⟨j, rfl, -⟩ := part_of_rolePlace? second
    have named : module.kind = .module := kind_of_firstOf? declared
    exact ⟨i, j, module, rfl, part.trans declared, by rw [named]; rfl⟩
  · cases found

/-- Where a node has a literal that it reports. -/
def HasLiteral (n : Node) (place : Place) : Prop :=
  n.importedPlace? = some place ∨ n.ambientPlace? = some place

theorem HasLiteral.shape (plain : n.Plain) (held : n.HasLiteral place) :
    (∃ i, place = [i] ∧ n.kind.namesSource) ∨
      ∃ i j c, place = [i, j] ∧ n.children[i]? = some c ∧ c.kind.namesSource = false :=
  held.elim (shape_of_importedPlace? plain) fun found => .inr (shape_of_ambientPlace? found)

/-- **A literal is reported by one node.** Two nodes that report the literal at one place stand at one
place themselves. -/
theorem HasLiteral.unique {above above' rest' : Place} {n' : Node}
    (here : root.at? above = some n) (here' : root.at? above' = some n')
    (plain : n.Plain) (plain' : n'.Plain) (held : n.HasLiteral rest) (held' : n'.HasLiteral rest')
    (same : above ++ rest = above' ++ rest') : above = above' := by
  -- a part that names what is imported is no part in which another node has its literal
  have apart {above above' : Place} {n n' c : Node} {i i' j' : Nat}
      (here : root.at? above = some n) (here' : root.at? above' = some n')
      (names : n.kind.namesSource) (part : n'.children[i']? = some c)
      (silent : c.kind.namesSource = false) (same : above ++ [i] = above' ++ [i', j']) : False := by
    have same : above ++ [i] = (above' ++ [i']) ++ [j'] := by simpa using same
    obtain ⟨rfl, -⟩ := List.append_inj' same rfl
    rw [at?_append, here', Option.bind_some, at?_singleton, part] at here
    cases here
    rw [silent] at names
    cases names
  rcases held.shape plain with ⟨i, rfl, names⟩ | ⟨i, j, c, rfl, part, silent⟩ <;>
    rcases held'.shape plain' with ⟨i', rfl, names'⟩ | ⟨i', j', c', rfl, part', silent'⟩
  · exact (List.append_inj' same rfl).1
  · exact (apart here here' names part' silent' same).elim
  · exact (apart here' here names' part silent same.symm).elim
  · exact (List.append_inj' same rfl).1

/-- A node that names an import declares no module. -/
theorem ambientString?_eq_none {s : Node} (found : n.importedString? = some s) :
    n.ambientString? = none := by
  unfold ambientString?
  split
  next declaration =>
    rw [importedString?, declaration] at found
    cases found
  · rfl

theorem mem_literals {literal? : Node → Option Place} :
    place ∈ root.literals literal? ↔
      ∃ above n, root.at? above = some n ∧ ∃ rest, literal? n = some rest ∧ above ++ rest = place := by
  simp only [literals, List.mem_filterMap, Prod.exists, mem_placed, Option.map_eq_some_iff]

theorem nodup_literals {literal? : Node → Option Place}
    (held : ∀ n place, literal? n = some place → n.HasLiteral place)
    (plain : ∀ place n, root.at? place = some n → n.Plain) : (root.literals literal?).Nodup := by
  rw [literals, List.Nodup, List.pairwise_filterMap]
  have distinct := nodup_placed root
  rw [List.Nodup, List.pairwise_map] at distinct
  refine distinct.imp_of_mem fun {e e'} here here' apart place found place' found' same => apart ?_
  obtain ⟨rest, literal, rfl⟩ := Option.map_eq_some_iff.mp found
  obtain ⟨rest', literal', rfl⟩ := Option.map_eq_some_iff.mp found'
  have here := mem_placed.mp here
  have here' := mem_placed.mp here'
  exact HasLiteral.unique here here' (plain _ _ here) (plain _ _ here') (held _ _ literal)
    (held _ _ literal') same

/-- No literal is reported twice. -/
theorem nodup_places (plain : ∀ place n, root.at? place = some n → n.Plain) :
    (root.importedPlaces ++ root.ambientPlaces).Nodup := by
  refine (nodup_literals (fun _ _ => .inl) plain).append (nodup_literals (fun _ _ => .inr) plain)
    (List.disjoint_left.mpr fun place imported ambient => ?_)
  obtain ⟨above, n, here, rest, literal, rfl⟩ := mem_literals.mp imported
  obtain ⟨above', n', here', rest', literal', same⟩ := mem_literals.mp ambient
  obtain rfl := HasLiteral.unique here here' (plain _ _ here) (plain _ _ here') (.inl literal)
    (.inr literal') same.symm
  rw [here] at here'
  cases here'
  obtain ⟨-, s, there, -⟩ := of_bind_stringAt? literal
  obtain ⟨-, s', there', -⟩ := of_bind_stringAt? literal'
  have string := importedPlace?_bind_at? n
  have string' := ambientPlace?_bind_at? n
  rw [literal, Option.bind_some, there] at string
  rw [ambientString?_eq_none string.symm, literal', Option.bind_some, there'] at string'
  cases string'

/-- A specifier is what the string literal at a place spells. -/
def Spells (root : Node) (specifier : String) (place : Place) : Prop :=
  ∃ s, root.at? place = some s ∧ s.isString ∧ s.stringText = specifier

/-- What the nodes of a tree contribute is spelt at the places of their literals, one by one. -/
theorem spelt_literals (literal? : Node → Option Place) (specifier? : Finding → Option String)
    (string : ∀ n place, literal? n = some place → ∃ s, n.at? place = some s ∧ s.isString)
    (spelt : ∀ n, n.finding?.bind specifier? = ((literal? n).bind n.at?).map stringText)
    (root : Node) :
    List.Forall₂ root.Spells (root.findings.filterMap specifier?) (root.literals literal?) := by
  have each {es : List (Place × Node)} (placed : ∀ e ∈ es, root.at? e.1 = some e.2) :
      List.Forall₂ root.Spells ((es.filterMap (·.2.finding?)).filterMap specifier?)
        (es.filterMap fun e => (literal? e.2).map (e.1 ++ ·)) := by
    induction es with
    | nil => exact .nil
    | cons e es ih =>
      have rest := ih fun e member => placed e (List.mem_cons_of_mem _ member)
      have here := placed e List.mem_cons_self
      rw [List.filterMap_filterMap] at rest ⊢
      rw [List.filterMap_cons, List.filterMap_cons, spelt]
      cases found : literal? e.2 with
      | none => exact rest
      | some place =>
        obtain ⟨s, there, string⟩ := string _ _ found
        rw [Option.bind_some, there]
        refine .cons ⟨s, ?_, string, rfl⟩ rest
        rw [at?_append, here, Option.bind_some, there]
  rw [findings_eq_filterMap]
  exact each fun e member => mem_placed.mp member

theorem spelt_importedPlaces (root : Node) :
    List.Forall₂ root.Spells (root.findings.filterMap Finding.imported?) root.importedPlaces := by
  refine spelt_literals importedPlace? _ (fun n place found => (of_bind_stringAt? found).2)
    (fun n => ?_) root
  rw [importedPlace?_bind_at?, finding?]
  cases declared : n.ambientString? with
  | none => cases n.importedString? <;> rfl
  | some s =>
    cases found : n.importedString? with
    | none => rfl
    | some s' =>
      rw [ambientString?_eq_none found] at declared
      cases declared

theorem spelt_ambientPlaces (root : Node) :
    List.Forall₂ root.Spells (root.findings.filterMap Finding.ambient?) root.ambientPlaces := by
  refine spelt_literals ambientPlace? _ (fun n place found => (of_bind_stringAt? found).2)
    (fun n => ?_) root
  rw [ambientPlace?_bind_at?, finding?]
  cases n.ambientString? with
  | none => cases n.importedString? <;> rfl
  | some s => rfl

/-! ## What the parts of a tree contribute -/

theorem finding?_eq_none (silent : n.kind.reports = false) : n.finding? = none := by
  cases kind : n.kind with
  | importStatement | exportStatement | requireClause | call | ambientDeclaration =>
    rw [kind] at silent
    cases silent
  | program | importKeyword | arguments | module | expression | group _ | leaf _ =>
    simp only [finding?, ambientString?, importedString?, kind, Option.map_none]

/-- A tree without any node that may contribute something contributes nothing. -/
theorem findings_eq_nil (silent : ∀ place m, n.at? place = some m → m.kind.reports = false) :
    n.findings = [] := by
  rw [findings_eq_filterMap, List.filterMap_eq_nil_iff]
  exact fun e member => finding?_eq_none (silent e.1 e.2 (mem_placed.mp member))

theorem examine_root (root : Node) : examine [([], root)] = root.placed := by
  rw [examine_eq, List.flatMap_cons, List.flatMap_nil, List.append_nil]
  exact List.map_id root.placed

/-- The walk finds what the recursive traversal finds. -/
theorem visit_root (root : Node) : visit [root] = root.findings := by
  rw [findings_eq_filterMap, ← examine_root]
  exact visit_eq [([], root)]

theorem extract_imports (root : Node) :
    root.extract.imports = root.findings.filterMap Finding.imported? := by
  rw [extract, visit_root]
  rfl

theorem extract_ambientModules (root : Node) :
    root.extract.ambientModules = root.findings.filterMap Finding.ambient? := by
  rw [extract, visit_root]
  rfl

/-- A tree whose root contributes nothing contributes what its parts do, one after the other. -/
theorem extract_eq_flatMap (silent : root.kind.reports = false) :
    root.extract.imports = root.children.flatMap (·.extract.imports) ∧
      root.extract.ambientModules = root.children.flatMap (·.extract.ambientModules) := by
  have parts (specifier? : Finding → Option String) : root.findings.filterMap specifier? =
      root.children.flatMap fun c => c.findings.filterMap specifier? := by
    rw [findings_eq, finding?_eq_none silent, Option.toList_none, List.nil_append,
      List.filterMap_flatMap]
  simp only [extract_imports, extract_ambientModules]
  exact ⟨parts _, parts _⟩

theorem extract_eq_nil (silent : ∀ place m, n.at? place = some m → m.kind.reports = false) :
    n.extract.imports = [] ∧ n.extract.ambientModules = [] := by
  rw [extract_imports, extract_ambientModules, findings_eq_nil silent]
  exact ⟨rfl, rfl⟩

/-- **The walk over a tree is the recursive traversal.** Let no call have as its argument list a node
that itself names what is imported. Then the walk examines every node of the tree once, each before
its parts and these from left to right; the imports and the ambient modules are those that the
recursive traversal collects, hence those of the parts of the root one after the other; a part without
any node that may contribute something contributes nothing; and the specifiers are spelt by string
literals of which none is reported twice. -/
theorem extract_traverses (root : Node) (plain : ∀ place n, root.at? place = some n → n.Plain) :
    (examine [([], root)] = root.placed ∧
      (examine [([], root)]).length = root.size ∧
      ((examine [([], root)]).map Prod.fst).Nodup ∧
      (∀ place n, (place, n) ∈ examine [([], root)] ↔ root.at? place = some n) ∧
      visit [root] = (examine [([], root)]).filterMap (·.2.finding?)) ∧
    (root.extract.imports = root.findings.filterMap Finding.imported? ∧
      root.extract.ambientModules = root.findings.filterMap Finding.ambient?) ∧
    (root.kind.reports = false →
      root.extract.imports = root.children.flatMap (·.extract.imports) ∧
      root.extract.ambientModules = root.children.flatMap (·.extract.ambientModules)) ∧
    (∀ part ∈ root.children, (∀ place n, part.at? place = some n → n.kind.reports = false) →
      part.extract.imports = [] ∧ part.extract.ambientModules = []) ∧
    List.Forall₂ root.Spells root.extract.imports root.importedPlaces ∧
    List.Forall₂ root.Spells root.extract.ambientModules root.ambientPlaces ∧
    (root.importedPlaces ++ root.ambientPlaces).Nodup := by
  have examined := examine_root root
  refine ⟨⟨examined, ?_, ?_, fun place n => ?_, visit_eq [([], root)]⟩,
    ⟨extract_imports root, extract_ambientModules root⟩, extract_eq_flatMap,
    fun part _ => extract_eq_nil, ?_, ?_, nodup_places plain⟩
  · rw [examined, length_placed]
  · rw [examined]
    exact nodup_placed root
  · rw [examined, mem_placed]
  · rw [extract_imports]
    exact spelt_importedPlaces root
  · rw [extract_ambientModules]
    exact spelt_ambientPlaces root

/-- A module that is declared with an import inside, and then a call that imports. -/
def nested : Node :=
  let leaf (kind : TokenKind) (text : String) := Node.mk none (.leaf kind) text []
  .ofParts .program
    [.ofParts .ambientDeclaration
      [leaf .word "declare",
        .ofParts .module
          [leaf .word "module", (leaf .string "'outer'").inRole .name,
            .ofParts (.group .curly)
              [.ofParts .importStatement
                [leaf .word "import", (leaf .string "'inner'").inRole .source]]]],
      leaf .mark ";",
      .ofParts .call
        [.mk (some .function) .importKeyword "import" [],
          .mk (some .arguments) .arguments ""
            [leaf (.opening .round) "(", leaf .string "'./lazy'", leaf (.closing .round) ")"]]]

theorem extract_traverses_nested :
    (examine [([], nested)]).length = 17 ∧ nested.extract.imports = ["inner", "./lazy"] ∧
      nested.extract.ambientModules = ["outer"] ∧
      nested.importedPlaces = [[0, 1, 2, 0, 1], [2, 1, 1]] ∧
      (nested.importedPlaces ++ nested.ambientPlaces).Nodup := by
  obtain ⟨⟨-, examined, -⟩, ⟨imports, ambient⟩, -, -, -, -, once⟩ :=
    extract_traverses nested (plain_of_placed (by decide))
  exact ⟨examined.trans (by decide), by rw [imports]; decide, by rw [ambient]; decide, by decide,
    once⟩

end Node

end DepGraph.Source
