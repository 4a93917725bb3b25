import DepGraph.Proofs.Fairness

/-!
# Any schedule against one call after the other

Whatever the schedule, a resolution comes to what evaluating the specifiers one after the other,
with every call answered at once, comes to.

* `World.ResolvesTo` — a file comes to an ending along a schedule, and keeps it.
* `Answers.Agrees` — an ending is what the evaluation in order says.
* `World.resolution_refines` — every fair schedule leads to an ending, and to one that agrees.
-/

set_option autoImplicit false

namespace DepGraph

/-- Along the schedule, the resolution of the file comes to the ending and keeps it. -/
def World.ResolvesTo (env : Nat → Environment) (w : World) (schedule : Nat → Action) (id : FileId)
    (ending : Ending Fault Dependencies) : Prop :=
  ∃ n, ∀ m, n ≤ m → ∃ r, (w.after env schedule m).store.record? id = some r ∧
    r.cell.stage = .ended ending

/-- The ending is the one of evaluating the occurrences one after the other, every call being
answered at once: it returns if they all do, and maps the distinct texts, in order of first
occurrence, to what the last occurrence of each returns. -/
structure Answers.Agrees (answers : Answers) (options : Options) (file : String)
    (occurrences : List Occurrence) (ending : Ending Fault Dependencies) : Prop where
  returned : ending.isReturned = true ↔ ∀ o ∈ occurrences,
    (answers.evaluate file (Policy.inquiry options file o)).isReturned = true
  keys : ∀ info, ending = .returned info →
    info.mappings.map (·.1) = (occurrences.map (·.text)).eraseDups
  addresses : ∀ info, ending = .returned info → ∀ (i : Nat) (o : Occurrence),
    occurrences[i]? = some o →
    (∀ (j : Nat) (o' : Occurrence), i < j → occurrences[j]? = some o' → o'.text ≠ o.text) →
    ∃ address, answers.evaluate file (Policy.inquiry options file o) = .returned address ∧
      info.mappings.lookup o.text = some address

namespace Lane

/-- A closed lane agrees with the evaluation in order. -/
theorem Closed.agrees {env : Environment} {answers : Answers} (h : env.Gives answers)
    {options : Options} {id : FileId} {resolver : Nat} {occurrences : List Occurrence}
    {ending : Ending Fault Dependencies} {l : Lane}
    (hl : Closed env options id resolver occurrences ending l) :
    answers.Agrees options id.name occurrences ending := by
  have hscript : ∀ (i : Nat) (o : Occurrence),
      ((Policy.inquiry options id.name o).script env id i 0).ending =
        answers.evaluate id.name (Policy.inquiry options id.name o) := fun i o =>
    (Inquiry.script_ending env id i 0 _).trans (h.evaluate id i 0 _)
  refine ⟨?_, fun info hinfo => ?_, fun info hinfo i o ho hlast => ?_⟩
  · rw [Ending.isReturned_iff, hl.returned_iff]
    constructor
    · intro hall o ho
      obtain ⟨i, hi⟩ := List.mem_iff_getElem?.mp ho
      rw [Ending.isReturned_iff, ← hscript i o]
      exact hall i o hi
    · intro hall i o ho
      rw [hscript i o, ← Ending.isReturned_iff]
      exact hall o (List.mem_of_getElem? ho)
  · subst hinfo
    exact hl.mappings.1
  · subst hinfo
    obtain ⟨address, haddress, hlookup⟩ := hl.mappings.2 i o ho hlast
    exact ⟨address, (hscript i o).symm.trans haddress, hlookup⟩

end Lane

namespace World

variable {env : Nat → Environment}

/-- A request for a file that nobody has asked for sets its specifiers under way. -/
theorem resolve_starts {options : Options} {w : World} (hoptions : w.store.options = options)
    {resolver : Nat} {name : String} {id : FileId} {l : Lane} {found : Extraction}
    {notices : List Notice} (hid : w.store.current? name = some id) (hl : w.lane? id = some l)
    (hidle : l.Idle id) (hextract : (env resolver).extract l.record.text = .ok (found, notices)) :
    ∃ l', (w.apply env (.resolve resolver name)).lane? id = some l' ∧
      Lane.Underway (env resolver) options id resolver found.occurrences l' := by
  obtain ⟨hr, -, -⟩ := lane?_eq_some.mp hl
  rcases resolve_spec (env resolver) w resolver name none with
    ⟨hnone, -⟩ | ⟨id', r, hid', hr', hcases⟩
  · rw [Store.find?_eq hid, hr] at hnone
    cases hnone
  obtain rfl : id = id' := Option.some.inj (hid.symm.trans hid')
  obtain rfl : l.record = r := Option.some.inj (hr.symm.trans hr')
  rcases hcases with ⟨-, cause, he, -⟩ | ⟨-, found', notices', he, h⟩ | ⟨hs, -⟩
  · rw [hextract] at he
    cases he
  · rw [hextract] at he
    cases he
    have hbegin := (lane?_begin (env resolver) w resolver id _ found notices hl fun _ => rfl).trans
      (if_pos rfl)
    have hjoin := (lane?_join _ id none hbegin).trans (if_pos rfl)
    rw [hoptions] at hjoin
    refine ⟨_, by rw [apply, h]; exact hjoin, ?_⟩
    exact (hidle.start found).setCell rfl
  · exact absurd hidle.stage hs

/-- **Resolution under any schedule refines a sequential evaluation.** Let a file that nobody has
asked for be asked for in any world of any run, and let the calls of its resolver be answered by
their arguments. Along every fair schedule the resolution comes to an ending that agrees with the
evaluation of the specifiers one after the other; so two schedules never lead to a result and to a
failure. -/
theorem resolution_refines (options : Options) (libName : String) (registries : Nat → Registry)
    (prior : List Action) {w : World} (hw : w = (initial options libName registries).run env prior)
    {resolver : Nat} {name : String} {id : FileId} {r : Record} {found : Extraction}
    {notices : List Notice} {answers : Answers} (hgives : (env resolver).Gives answers)
    (hid : w.store.current? name = some id) (hr : w.store.record? id = some r)
    (hunstarted : r.cell.stage = .unstarted)
    (hextract : (env resolver).extract r.text = .ok (found, notices)) :
    (∀ schedule, Fair env (w.apply env (.resolve resolver name)) schedule id →
      ∃ ending, ResolvesTo env (w.apply env (.resolve resolver name)) schedule id ending ∧
        answers.Agrees options id.name found.occurrences ending) ∧
    ∀ schedule schedule' ending ending',
      Fair env (w.apply env (.resolve resolver name)) schedule id →
      Fair env (w.apply env (.resolve resolver name)) schedule' id →
      ResolvesTo env (w.apply env (.resolve resolver name)) schedule id ending →
      ResolvesTo env (w.apply env (.resolve resolver name)) schedule' id ending' →
      ending.isReturned = ending'.isReturned := by
  have htidy : w.Tidy := hw ▸ tidy_run env (tidy_initial options libName registries) prior
  have hoptions : w.store.options = options :=
    hw ▸ options_run (tidy_initial options libName registries) prior
  have hlawful : ∀ id l, w.lane? id = some l → Lane.Lawful env options id l := by
    subst hw
    exact fun id l hl => lawful_run options libName registries prior hl
  have hends : ∀ schedule, Fair env (w.apply env (.resolve resolver name)) schedule id →
      ∃ ending, ResolvesTo env (w.apply env (.resolve resolver name)) schedule id ending ∧
        answers.Agrees options id.name found.occurrences ending := by
    intro schedule hfair
    have hl := lane?_of_record? hr
    have hidle := (hlawful id _ hl).idle_of_unstarted hunstarted
    obtain ⟨l, hl', hunderway⟩ := resolve_starts hoptions hid hl hidle hextract
    have htidy' := tidy_apply env htidy (.resolve resolver name)
    have hoptions' : (w.apply env (.resolve resolver name)).store.options = options :=
      (options_apply htidy _).trans hoptions
    obtain ⟨n, ln, -, hln, ending, hclosed⟩ := working_ends htidy' hoptions' hfair (n := 0) hl'
      ⟨hunderway, le_rfl⟩
    refine ⟨ending, ⟨n, fun m hm => ?_⟩, hclosed.agrees hgives⟩
    obtain ⟨lm, hlm, hclosed'⟩ := ended_after htidy' hoptions' hln hclosed hm
    exact ⟨lm.record, (lane?_eq_some.mp hlm).1, hclosed'.stage⟩
  refine ⟨hends, fun schedule schedule' ending ending' hfair hfair' hto hto' => ?_⟩
  have hunique : ∀ schedule ending, Fair env (w.apply env (.resolve resolver name)) schedule id →
      ResolvesTo env (w.apply env (.resolve resolver name)) schedule id ending →
      answers.Agrees options id.name found.occurrences ending := by
    intro schedule ending hfair hto
    obtain ⟨ending', hto', hagrees⟩ := hends schedule hfair
    obtain ⟨n, hn⟩ := hto
    obtain ⟨n', hn'⟩ := hto'
    obtain ⟨r₁, hr₁, hs₁⟩ := hn (max n n') (le_max_left _ _)
    obtain ⟨r₂, hr₂, hs₂⟩ := hn' (max n n') (le_max_right _ _)
    obtain rfl := Option.some.inj (hr₁.symm.trans hr₂)
    rw [hs₁] at hs₂
    cases hs₂
    exact hagrees
  rw [Bool.eq_iff_iff, (hunique schedule ending hfair hto).returned,
    (hunique schedule' ending' hfair' hto').returned]

/-- Every file lists one text as a reference and as an import, and another one as a reference. Each
address is given once a gate of its own is open. -/
def collidingTexts : Nat → Environment := fun _ =>
  { address := fun _ specifier _ =>
      { gates := [specifier], outcome := .returned ("/" ++ specifier ++ ".ts") }
    descriptor := fun _ _ => { outcome := .returned ⟨[]⟩ }
    source := fun _ name => { outcome := .returned name }
    extract := fun _ => .ok ({ fileReferences := ["b", "a"], imports := ["b"] }, []) }

/-- The world in which one file was added. -/
def oneFile : World := (initial {} defaultLibName fun _ => {}).run collidingTexts [.add "f" ""]

/-- The calls are answered in turn, the last one first. -/
def lastCallFirst : List Action :=
  [.tick, .tick, .tick, .tick, .release "b", .tick, .tick, .release "./a", .tick, .tick,
    .release "./b"]

/-- The text that is listed twice gets the address of the import, although that call was answered
before the one of the reference. -/
theorem resolution_refines_colliding :
    ∃ info, ResolvesTo collidingTexts (oneFile.apply collidingTexts (.resolve 0 "f"))
        (thenTicks lastCallFirst) ⟨"f", 0⟩ (.returned info) ∧
      info.mappings.map (·.1) = ["b", "a"] ∧
      info.mappings.lookup "b" = some (some "/b.ts") ∧
      info.mappings.lookup "a" = some (some "/./a.ts") := by
  have hid : oneFile.store.current? "f" = some ⟨"f", 0⟩ := rfl
  have hr : oneFile.store.record? ⟨"f", 0⟩ = some { text := "" } := rfl
  have hfair : Fair collidingTexts (oneFile.apply collidingTexts (.resolve 0 "f"))
      (thenTicks lastCallFirst) ⟨"f", 0⟩ :=
    fair_thenTicks (k := 15) (by decide) (by decide +kernel) (by decide +kernel)
  have hgives : (collidingTexts 0).Gives
      ⟨fun specifier _ => .returned ("/" ++ specifier ++ ".ts"), fun _ => .returned ⟨[]⟩⟩ :=
    ⟨fun _ _ _ => rfl, fun _ _ => rfl⟩
  obtain ⟨ending, hto, hagrees⟩ := (resolution_refines {} defaultLibName (fun _ => {})
    [.add "f" ""] rfl hgives hid hr rfl rfl).1 _ hfair
  have hreturned : ending.isReturned = true := hagrees.returned.2 (by decide)
  have hlast : ∀ {occurrences : List Occurrence} {i : Nat} {text : String},
      (∀ o ∈ occurrences.drop (i + 1), o.text ≠ text) →
      ∀ (j : Nat) (o' : Occurrence), i < j → occurrences[j]? = some o' → o'.text ≠ text := by
    intro occurrences i text hothers j o' hj ho'
    obtain ⟨d, rfl⟩ := Nat.exists_eq_add_of_le hj
    rw [← List.getElem?_drop] at ho'
    exact hothers o' (List.mem_of_getElem? ho')
  cases ending with
  | raised f => cases hreturned
  | cancelled => cases hreturned
  | returned info =>
    obtain ⟨b, hb, hlookup_b⟩ :=
      hagrees.addresses info rfl 2 ⟨.importSpecifier, "b"⟩ rfl (hlast (by decide))
    obtain ⟨a, ha, hlookup_a⟩ :=
      hagrees.addresses info rfl 1 ⟨.fileReference, "a"⟩ rfl (hlast (by decide))
    cases hb
    cases ha
    exact ⟨info, hto, (hagrees.keys info rfl).trans (by decide), hlookup_b, hlookup_a⟩

end World

end DepGraph
