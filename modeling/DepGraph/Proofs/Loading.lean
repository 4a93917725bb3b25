import DepGraph.Proofs.NestedMerging

/-!
# What files of settings amount to

What is found for a scope either holds a mapping, or is passed over, or ends the loading. The
settings are the mappings of all scopes merged, as if the files that hold none were not there, unless
something ends the loading: then there are no settings at all. This is so in any format, whatever its
values are, however reading and looking for files may fail, and however many calls may be nested.

* `Format.mapping?` — the mapping that is held by what is found;
* `Format.Fatal` — what ends the loading;
* `loadOnto_settings` — loading as a fold over what the scopes give;
* `Format.settings_load` — the settings of all scopes: when there are any, what they are, and what
  else comes of loading;
* `Format.load_endless` — a mapping that holds itself, found in two scopes;
* `load_eq` — the loading that counts no calls is the one with enough of them.
-/

set_option autoImplicit false

namespace DepGraph.Settings

/-! ## Folds that may fail -/

/-- A fold fails at the first item that fails, after those before it have come to a result. -/
theorem foldlM_eq_error {α β ε : Type} {g : β → α → Except ε β} {items : List α} {start : β}
    {failure : ε} :
    items.foldlM g start = .error failure ↔
      ∃ before item after reached, items = before ++ item :: after ∧
        before.foldlM g start = .ok reached ∧ g reached item = .error failure := by
  induction items generalizing start with
  | nil =>
    constructor
    · intro fails
      cases fails
    · rintro ⟨before, item, after, reached, split, -⟩
      simp at split
  | cons item items ih =>
    rw [List.foldlM_cons]
    cases first : g start item with
    | error other =>
      constructor
      · intro fails
        cases fails
        exact ⟨[], item, items, start, rfl, rfl, first⟩
      · rintro ⟨before, item', after, reached, split, comes, fails⟩
        cases before with
        | nil =>
          cases split
          cases comes
          exact first.symm.trans fails
        | cons earlier before =>
          cases split
          rw [List.foldlM_cons, first] at comes
          cases comes
    | ok next =>
      refine Iff.trans ih ⟨?_, ?_⟩
      · rintro ⟨before, item', after, reached, rfl, comes, fails⟩
        refine ⟨item :: before, item', after, reached, rfl, ?_, fails⟩
        rw [List.foldlM_cons, first]
        exact comes
      · rintro ⟨before, item', after, reached, split, comes, fails⟩
        cases before with
        | nil =>
          cases split
          cases comes
          rw [first] at fails
          cases fails
        | cons earlier before =>
          cases split
          rw [List.foldlM_cons, first] at comes
          exact ⟨before, item', after, reached, rfl, comes, fails⟩

/-! ## Loading as a fold -/

/-- **The settings are a fold over what the scopes give.** -/
theorem loadOnto_settings {M X : Type} (merge : M → M → Except X M) (settings : M)
    (contributions : List (Scope × Contribution M X)) :
    (loadOnto merge settings contributions).settings =
      contributions.foldlM (fun settings given => given.2.onto merge settings) settings := by
  induction contributions generalizing settings with
  | nil => rfl
  | cons given rest ih =>
    obtain ⟨scope, contribution⟩ := given
    rw [loadOnto, List.foldlM_cons]
    cases contribution.onto merge settings with
    | error failure => rfl
    | ok reached => exact ih reached

namespace Format

variable {K V X : Type} (f : Format K V X)

/-! ## One scope -/

/-- The mapping that is held by what is found: that of a file with a document that is one. -/
def mapping? : Except X File → Option (List (K × V))
  | .ok (.content octets) =>
    match f.read octets with
    | .value v => f.entries? v
    | _ => none
  | _ => none

/-- What ends the loading: not to get as far as a file, and a file of which reading breaks other than
by a rule of the format. -/
inductive Fatal : Except X File → X → Prop
  | unsearchable (failure : X) : Fatal (.error failure) failure
  | broken {octets : ByteArray} {failure : X} (breaks : f.read octets = .broken failure) :
      Fatal (.ok (.content octets)) failure

/-- What is found ends the loading, or gives its mapping and else nothing that counts. -/
theorem contribution_cases (look : Except X File) :
    (∃ failure, f.Fatal look failure ∧ f.contribution look = .failed failure) ∨
    (f.mapping? look = none ∧
      (f.contribution look = .nothing ∨ ∃ reason, f.contribution look = .skipped reason)) ∨
    f.contribution look = .entries ((f.mapping? look).getD []) := by
  obtain failure | (_ | _ | octets) := look
  · exact .inl ⟨failure, .unsearchable failure, rfl⟩
  · exact .inr (.inl ⟨rfl, .inl rfl⟩)
  · exact .inr (.inl ⟨rfl, .inr ⟨_, rfl⟩⟩)
  · rw [mapping?, contribution]
    cases reads : f.read octets with
    | broken failure => exact .inl ⟨failure, .broken reads, rfl⟩
    | malformed => exact .inr (.inl ⟨rfl, .inr ⟨_, rfl⟩⟩)
    | value v =>
      dsimp only
      cases f.entries? v with
      | some es => exact .inr (.inr rfl)
      | none =>
        cases f.given v with
        | true => exact .inr (.inl ⟨rfl, .inr ⟨_, rfl⟩⟩)
        | false => exact .inr (.inr rfl)

variable {f}

theorem fatal_iff {look : Except X File} {failure : X} :
    f.Fatal look failure ↔ f.contribution look = .failed failure := by
  constructor
  · intro fatal
    cases fatal with
    | unsearchable failure => rfl
    | broken breaks => simp only [contribution, breaks]
  · intro fails
    obtain ⟨other, fatal, gives⟩ | ⟨-, gives | ⟨reason, gives⟩⟩ | gives :=
      f.contribution_cases look <;> rw [gives] at fails <;> cases fails
    exact fatal

theorem Fatal.no_mapping {look : Except X File} {failure : X} (fatal : f.Fatal look failure) :
    f.mapping? look = none := by
  cases fatal with
  | unsearchable failure => rfl
  | broken breaks => simp only [mapping?, breaks]

theorem eq_of_contribution_eq {look : Except X File} {es : List (K × V)}
    (gives : f.contribution look = .entries es) : es = (f.mapping? look).getD [] := by
  obtain ⟨failure, -, other⟩ | ⟨-, other | ⟨reason, other⟩⟩ | other := f.contribution_cases look <;>
    rw [gives] at other <;> cases other
  rfl

variable {merge : List (K × V) → List (K × V) → Except X (List (K × V))}

/-- What does not end the loading leaves the settings as its mapping alone would. -/
theorem onto_contribution (merge_nil : ∀ es, merge es [] = .ok es) {look : Except X File}
    (harmless : ∀ failure, ¬ f.Fatal look failure) (settings : List (K × V)) :
    (f.contribution look).onto merge settings =
      (f.mapping? look).toList.foldlM merge settings := by
  obtain ⟨failure, fatal, -⟩ | ⟨noMapping, gives | ⟨reason, gives⟩⟩ | gives :=
    f.contribution_cases look
  · exact absurd fatal (harmless failure)
  · rw [gives, noMapping]
    rfl
  · rw [gives, noMapping]
    rfl
  · rw [gives]
    cases f.mapping? look with
    | none => exact merge_nil settings
    | some es => exact (bind_pure _).symm

/-! ## All scopes -/

variable (f) (exhausted : X) (calls : Nat) (looks : Scope → Except X File)

/-- What one scope makes of the settings. -/
def proceed (settings : List (K × V)) (scope : Scope) : Except X (List (K × V)) :=
  (f.contribution (looks scope)).onto (f.mergeWithin exhausted calls) settings

/-- The mappings that are held for scopes, merged in order. -/
def layered (scopes : List Scope) (settings : List (K × V)) : Except X (List (K × V)) :=
  (scopes.filterMap fun scope => f.mapping? (looks scope)).foldlM (f.mergeWithin exhausted calls)
    settings

theorem layered_cons (scope : Scope) (scopes : List Scope) (settings : List (K × V)) :
    f.layered exhausted calls looks (scope :: scopes) settings =
      (f.mapping? (looks scope)).toList.foldlM (f.mergeWithin exhausted calls) settings >>=
        f.layered exhausted calls looks scopes := by
  rw [layered, List.filterMap_cons]
  cases f.mapping? (looks scope) with
  | none => rfl
  | some es =>
    rw [Option.toList_some, List.foldlM_cons, List.foldlM_cons]
    simp only [List.foldlM_nil, bind_pure]
    rfl

theorem load_settings : (f.load exhausted calls looks).settings =
    Scope.all.foldlM (f.proceed exhausted calls looks) [] := by
  rw [load, loadOnto_settings, List.foldlM_map]
  rfl

variable {f exhausted calls looks}

/-- Where nothing ends the loading, the mappings are merged. -/
theorem foldlM_proceed {scopes : List Scope}
    (harmless : ∀ scope ∈ scopes, ∀ failure, ¬ f.Fatal (looks scope) failure)
    (settings : List (K × V)) :
    scopes.foldlM (f.proceed exhausted calls looks) settings =
      f.layered exhausted calls looks scopes settings := by
  induction scopes generalizing settings with
  | nil => rfl
  | cons scope scopes ih =>
    obtain ⟨first, others⟩ := List.forall_mem_cons.1 harmless
    rw [List.foldlM_cons, layered_cons, proceed,
      onto_contribution (f.mergeWithin_nil exhausted calls) first]
    exact congrArg _ (funext fun reached => ih others reached)

/-- Where there are settings, nothing has ended the loading. -/
theorem harmless_of_foldlM_proceed {scopes : List Scope} {settings reached : List (K × V)}
    (comes : scopes.foldlM (f.proceed exhausted calls looks) settings = .ok reached) :
    ∀ scope ∈ scopes, ∀ failure, ¬ f.Fatal (looks scope) failure := by
  induction scopes generalizing settings with
  | nil => nofun
  | cons scope scopes ih =>
    rw [List.foldlM_cons] at comes
    cases first : f.proceed exhausted calls looks settings scope with
    | error failure =>
      rw [first] at comes
      cases comes
    | ok next =>
      rw [first] at comes
      refine List.forall_mem_cons.2 ⟨fun failure fatal => ?_, ih comes⟩
      rw [proceed, fatal_iff.1 fatal] at first
      cases first

theorem foldlM_proceed_eq_ok {scopes : List Scope} {settings reached : List (K × V)} :
    scopes.foldlM (f.proceed exhausted calls looks) settings = .ok reached ↔
      (∀ scope ∈ scopes, ∀ failure, ¬ f.Fatal (looks scope) failure) ∧
        f.layered exhausted calls looks scopes settings = .ok reached := by
  constructor
  · intro comes
    have harmless := harmless_of_foldlM_proceed comes
    exact ⟨harmless, (foldlM_proceed harmless settings).symm.trans comes⟩
  · rintro ⟨harmless, merged⟩
    exact (foldlM_proceed harmless settings).trans merged

/-- One scope fails if what is found there ends the loading, or its mapping is not merged. -/
theorem proceed_eq_error {settings : List (K × V)} {scope : Scope} {failure : X} :
    f.proceed exhausted calls looks settings scope = .error failure ↔
      f.Fatal (looks scope) failure ∨ ∃ es, f.mapping? (looks scope) = some es ∧
        f.mergeWithin exhausted calls settings es = .error failure := by
  by_cases fatal : ∃ other, f.Fatal (looks scope) other
  · obtain ⟨other, fatal⟩ := fatal
    rw [fatal_iff, proceed, fatal_iff.1 fatal, fatal.no_mapping]
    simp [Contribution.onto]
  · have harmless := not_exists.1 fatal
    rw [proceed, onto_contribution (f.mergeWithin_nil exhausted calls) harmless]
    cases f.mapping? (looks scope) with
    | none => simp [harmless, pure, Except.pure]
    | some es => simp [harmless]

/-- **Loading fails at the first scope that fails**, after the mappings before it were merged. -/
theorem load_eq_error {failure : X} :
    (f.load exhausted calls looks).settings = .error failure ↔
      ∃ before scope after reached, Scope.all = before ++ scope :: after ∧
        (∀ earlier ∈ before, ∀ other, ¬ f.Fatal (looks earlier) other) ∧
        f.layered exhausted calls looks before [] = .ok reached ∧
        (f.Fatal (looks scope) failure ∨ ∃ es, f.mapping? (looks scope) = some es ∧
          f.mergeWithin exhausted calls reached es = .error failure) := by
  rw [load_settings, foldlM_eq_error]
  simp only [foldlM_proceed_eq_ok, proceed_eq_error, and_assoc]

/-! ## What comes of loading -/

variable (f looks)

/-- What is found, without the files that hold no mapping. -/
def mappingsOnly : Scope → Except X File := fun scope =>
  if (f.mapping? (looks scope)).isSome then looks scope else .ok .absent

theorem mapping?_mappingsOnly (scope : Scope) :
    f.mapping? (f.mappingsOnly looks scope) = f.mapping? (looks scope) := by
  unfold mappingsOnly
  split
  · rfl
  · next holdsNone => exact (Option.not_isSome_iff_eq_none.1 holdsNone).symm

theorem not_fatal_mappingsOnly (scope : Scope) (failure : X) :
    ¬ f.Fatal (f.mappingsOnly looks scope) failure := by
  intro fatal
  have noMapping := fatal.no_mapping
  rw [mapping?_mappingsOnly] at noMapping
  rw [mappingsOnly, noMapping] at fatal
  cases fatal

end Format

theorem Scope.mem_all (scope : Scope) : scope ∈ Scope.all := by
  cases scope <;> decide

namespace Format

variable {K V X : Type}

/-- **What comes of loading**, in any format, wherever looking for files and reading them may fail,
and with any number of calls. Without the files that hold no mapping, the settings are the mappings
merged in the order of the scopes. There are settings for all files if and only if nothing that is
found ends the loading and these mappings are merged, and then they are the same settings. Loading
fails at the first scope where something ends it, or where the mapping is not merged with those
before. A merge fails only when its calls are exhausted, and only with an overlay that is nested
deeper than there are calls. -/
theorem settings_load (f : Format K V X) (exhausted : X) (calls : Nat)
    (looks : Scope → Except X File) :
    (f.load exhausted calls (f.mappingsOnly looks)).settings =
        f.layered exhausted calls looks Scope.all [] ∧
      (∀ settings, (f.load exhausted calls looks).settings = .ok settings ↔
        (∀ scope failure, ¬ f.Fatal (looks scope) failure) ∧
          (f.load exhausted calls (f.mappingsOnly looks)).settings = .ok settings) ∧
      (∀ failure, (f.load exhausted calls looks).settings = .error failure ↔
        ∃ before scope after reached, Scope.all = before ++ scope :: after ∧
          (∀ earlier ∈ before, ∀ other, ¬ f.Fatal (looks earlier) other) ∧
          f.layered exhausted calls looks before [] = .ok reached ∧
          (f.Fatal (looks scope) failure ∨ ∃ es, f.mapping? (looks scope) = some es ∧
            f.mergeWithin exhausted calls reached es = .error failure)) ∧
      ∀ base overlay failure, f.mergeWithin exhausted calls base overlay = .error failure →
        failure = exhausted ∧ ∃ e ∈ overlay, ¬ f.Within calls e.2 := by
  have kept : (f.load exhausted calls (f.mappingsOnly looks)).settings =
      f.layered exhausted calls looks Scope.all [] := by
    rw [load_settings, foldlM_proceed fun scope _ => f.not_fatal_mappingsOnly looks scope]
    simp only [layered, mapping?_mappingsOnly]
  refine ⟨kept, fun settings => ?_, fun failure => ?_, fun base overlay failure fails => ?_⟩
  · rw [kept, load_settings, foldlM_proceed_eq_ok]
    simp only [Scope.mem_all, true_imp_iff]
  · exact load_eq_error
  · exact mergeWithin_eq_error fails

/-- A mapping that holds itself, found for a user and for a project, is the end of loading. -/
theorem load_endless {f : Format K V X} {k : K} {v : V} (endless : f.entries? v = some [(k, v)])
    (own : f.sameKey k k = true) {looks : Scope → Except X File}
    (user : f.mapping? (looks .user) = some [(k, v)])
    (project : f.mapping? (looks .project) = some [(k, v)]) (exhausted : X) (calls : Nat) :
    (f.load exhausted calls looks).settings = .error exhausted := by
  refine load_eq_error.2 ⟨[.user], .project, [.machine], [(k, v)], rfl, ?_, ?_, .inr ?_⟩
  · intro scope only failure fatal
    rw [List.mem_singleton.1 only] at fatal
    rw [fatal.no_mapping] at user
    cases user
  · have alone : f.mergeWithin exhausted calls [] [(k, v)] = .ok [(k, v)] := by
      rw [mergeWithin, mergeBy, mergeValue]
      rfl
    rw [layered_cons, user, Option.toList_some, List.foldlM_cons, alone]
    rfl
  · refine ⟨_, project, ?_⟩
    have found : f.get? k [(k, v)] = some v := if_pos own
    rw [mergeWithin, mergeBy, found, mergeValue_endless endless own]

/-- Mappings, one of which holds itself. -/
inductive Looped where
  | loop
  | plain (es : List (String × Looped))

/-- A format in which every file holds the mapping that holds itself. -/
def looped : Format String Looped String where
  read _ := .value .loop
  entries?
    | .loop => some [("own", .loop)]
    | .plain es => some es
  given _ := true
  mapping := .plain
  entries?_mapping _ := rfl
  sameKey := (· == ·)

example (calls : Nat) : (looped.load "exhausted" calls fun _ => .ok (.content .empty)).settings =
    .error "exhausted" :=
  load_endless rfl rfl rfl rfl _ calls

end Format

/-! ## Loading in the format in use -/

theorem loadOnto_congr {M X : Type} {merge merge' : M → M → Except X M}
    {contributions : List (Scope × Contribution M X)}
    (same : ∀ scope es, (scope, .entries es) ∈ contributions → ∀ settings,
      merge settings es = merge' settings es) (settings : M) :
    loadOnto merge settings contributions = loadOnto merge' settings contributions := by
  induction contributions generalizing settings with
  | nil => rfl
  | cons given rest ih =>
    obtain ⟨scope, contribution⟩ := given
    have first : contribution.onto merge settings = contribution.onto merge' settings := by
      cases contribution with
      | entries es => exact same scope es List.mem_cons_self settings
      | nothing | skipped _ | failed _ => rfl
    have others := ih fun scope es there => same scope es (List.mem_cons_of_mem _ there)
    rw [loadOnto, loadOnto, first]
    cases contribution.onto merge' settings with
    | error failure => rfl
    | ok reached => simp only [others]

/-- **Loading without counting calls is loading with enough of them**, whatever the files. -/
theorem load_eq (files : Scope → File) :
    ∃ enough, ∀ calls, enough ≤ calls → ∀ exhausted,
      load files = yaml.load exhausted calls fun scope => .ok (files scope) := by
  let held := Scope.all.flatMap fun scope => (yaml.mapping? (.ok (files scope))).getD []
  obtain ⟨enough, within⟩ : ∃ depth, ∀ e ∈ held, yaml.Within depth e.2 :=
    Format.exists_within_all fun e _ => exists_within e.2
  refine ⟨enough, fun calls le exhausted => loadOnto_congr ?_ []⟩
  intro scope es given settings
  obtain ⟨found, -, same⟩ := List.mem_map.1 given
  obtain ⟨rfl, gives⟩ := Prod.mk.inj same
  refine (mergeWithin_yaml exhausted (fun e entry => (within e ?_).mono le) settings).symm
  rw [Format.eq_of_contribution_eq gives] at entry
  exact List.mem_flatMap.2 ⟨found, found.mem_all, entry⟩

/-- A user's file that holds a mapping, and one of the machine that is not text. -/
def garbled : Scope → File
  | .user => .content "resolver:\n  types: [a]\n".toUTF8
  | .project => .absent
  | .machine => .content ⟨#[0xff]⟩

/-- One file that is not text, and so holds no mapping, is enough to lose the mappings of all scopes:
there are no settings, where without that file there are some. -/
theorem settings_load_garbled :
    (yaml.mapping? (.ok (garbled .machine))).isNone = true ∧
      (load (Function.update garbled .machine .absent)).settings.toOption =
        some [(.text "resolver", .map [(.text "types", .list [.text "a"])])] ∧
      (load garbled).settings.toOption = none := by
  refine ⟨?_, ?_, ?_⟩ <;> decide +kernel

end DepGraph.Settings
