import DepGraph.Name
import Mathlib.Data.List.Basic

/-!
# Suffixes of names

A name is a script, a checkable source or a declaration by its end, whatever else is in it: other
suffixes before the last one, line breaks, or nothing at all.

* `Name.cut?_append`, `Name.of_cut?` — a suffix is cut off exactly where a name ends in it;
* `Name.isSource_of_isDeclaration`, `Name.not_isScript_of_isSource` — how the suffix classes lie to
  each other;
* `Name.ScriptSplit` — a script as a stem, its suffix as written, and a final line break;
* `Name.isDeclaration_toDeclaration` — what stands next to a script is a declaration;
* `Name.suffixes_consistent` — **classes and rewrites agree on every name**: a script splits in
  one way, and its rewrites change the suffix and nothing else.
-/

set_option autoImplicit false

namespace DepGraph.Name

variable {suffix written stem final name : List Char}

/-! ## Spelling a suffix -/

theorem sameLetter_iff {p c : Char} :
    sameLetter p c = true ↔ c = p ∨ c = p.toUpper ∨ p = 's' ∧ c = 'ſ' := by
  simp [sameLetter, or_assoc]

/-- Only the letter `s` has a third form. -/
theorem eq_of_sameLetter {p c : Char} (h : sameLetter p c = true) (plain : p ≠ 's') :
    c = p ∨ c = p.toUpper := by
  simpa [sameLetter, plain] using h

theorem spells_cons {p c : Char} {ps cs : List Char} :
    spells (p :: ps) (c :: cs) = true ↔ sameLetter p c = true ∧ spells ps cs = true := by
  rw [spells, Bool.and_eq_true]

theorem length_of_spells (h : spells suffix written = true) : suffix.length = written.length := by
  induction suffix generalizing written with
  | nil => cases written with
    | nil => rfl
    | cons c cs => cases h
  | cons p ps ih => cases written with
    | nil => cases h
    | cons c cs => exact congrArg Nat.succ (ih (spells_cons.1 h).2)

/-- A suffix in two parts is spelled part by part. -/
theorem spells_append {front back : List Char} (h : spells (front ++ back) written = true) :
    ∃ before after, written = before ++ after ∧ spells front before = true ∧
      spells back after = true := by
  induction front generalizing written with
  | nil => exact ⟨[], written, rfl, rfl, h⟩
  | cons p ps ih =>
    cases written with
    | nil => cases h
    | cons c cs =>
      rw [List.cons_append, spells_cons] at h
      obtain ⟨before, after, rfl, front, back⟩ := ih h.2
      exact ⟨c :: before, after, rfl, spells_cons.2 ⟨h.1, front⟩, back⟩

/-! ## Cutting a suffix off -/

/-- A name ends with its final line break, which is there or not. -/
theorem splitFinalBreak_spec (name : List Char) :
    (splitFinalBreak name).1 ++ (splitFinalBreak name).2 = name ∧
      ((splitFinalBreak name).2 = [] ∨ (splitFinalBreak name).2 = ['\n']) := by
  unfold splitFinalBreak
  split
  · rename_i broken
    exact ⟨List.dropLast_append_getLast? _ broken, .inr rfl⟩
  · exact ⟨List.append_nil _, .inl rfl⟩

/-- A final line break, as text and as characters. -/
theorem final_iff {final : String} :
    final = "" ∨ final = "\n" ↔ final.toList = [] ∨ final.toList = ['\n'] := by
  rw [← String.toList_inj, ← String.toList_inj]
  rfl

/-- A body that does not end in a line break is found before the final line break. -/
theorem splitFinalBreak_append (body : List Char) (noBreak : body.getLast? ≠ some '\n')
    (h : final = [] ∨ final = ['\n']) : splitFinalBreak (body ++ final) = (body, final) := by
  obtain rfl | rfl := h
  · rw [List.append_nil, splitFinalBreak, if_neg noBreak]
  · rw [splitFinalBreak, if_pos List.getLast?_concat, List.dropLast_concat]

/-- **What is cut off is at the end**: stem, suffix and final line break make up the name. -/
theorem of_cut? (h : cut? suffix name = some (stem, written, final)) :
    name = stem ++ written ++ final ∧ spells suffix written = true ∧
      (final = [] ∨ final = ['\n']) := by
  obtain ⟨whole, final_eq⟩ := splitFinalBreak_spec name
  simp only [cut?] at h
  split at h
  · rename_i spelled
    cases h
    exact ⟨by rw [List.take_append_drop, whole], spelled, final_eq⟩
  · cases h

/-- Something at the end of the body that spells the suffix is cut off. -/
theorem cut?_of_body (body : (splitFinalBreak name).1 = stem ++ written)
    (spelled : spells suffix written = true) :
    cut? suffix name = some (stem, written, (splitFinalBreak name).2) := by
  have length_stem : (stem ++ written).length - suffix.length = stem.length := by
    rw [List.length_append, length_of_spells spelled]
    omega
  simp only [cut?, body, length_stem]
  rw [List.take_left, List.drop_left, if_pos spelled]

/-- **A suffix at the end is cut off**, with or without a line break after it. -/
theorem cut?_append (stem : List Char) (spelled : spells suffix written = true)
    (noBreak : (stem ++ written).getLast? ≠ some '\n') (h : final = [] ∨ final = ['\n']) :
    cut? suffix (stem ++ written ++ final) = some (stem, written, final) := by
  have parts := splitFinalBreak_append (stem ++ written) noBreak h
  rw [cut?_of_body (congrArg Prod.fst parts) spelled, parts]

/-- **A name ends in a suffix** if something that spells the suffix is at the end of its body. -/
theorem isSome_cut?_iff : (cut? suffix name).isSome = true ↔
    ∃ stem written, (splitFinalBreak name).1 = stem ++ written ∧ spells suffix written = true := by
  constructor
  · intro found
    simp only [cut?] at found
    split at found
    · rename_i spelled
      exact ⟨_, _, (List.take_append_drop _ _).symm, spelled⟩
    · cases found
  · rintro ⟨stem, written, body, spelled⟩
    rw [cut?_of_body body spelled]
    rfl

/-- A name that ends in a suffix ends in whatever the suffix ends in. -/
theorem isSome_cut?_of_append (front back : List Char)
    (h : (cut? (front ++ back) name).isSome = true) : (cut? back name).isSome = true := by
  obtain ⟨stem, written, body, spelled⟩ := isSome_cut?_iff.1 h
  obtain ⟨before, after, rfl, -, spelled⟩ := spells_append spelled
  exact isSome_cut?_iff.2 ⟨stem ++ before, after, by rw [body, List.append_assoc], spelled⟩

/-- The letter before the end of a suffix is found at the same distance from the end of a body. -/
theorem exists_letter {front back : List Char} {p : Char}
    (h : (cut? (front ++ p :: back) name).isSome = true) :
    ∃ c, (splitFinalBreak name).1.reverse[back.length]? = some c ∧ sameLetter p c = true := by
  obtain ⟨stem, written, body, spelled⟩ := isSome_cut?_iff.1 h
  obtain ⟨before, after, rfl, -, spelled⟩ := spells_append spelled
  cases after with
  | nil => cases spelled
  | cons c cs =>
    rw [spells_cons] at spelled
    refine ⟨c, ?_, spelled.1⟩
    have length_back : back.length = cs.reverse.length := by
      rw [List.length_reverse, length_of_spells spelled.2]
    have reversed : (stem ++ (before ++ c :: cs)).reverse =
        cs.reverse ++ c :: (stem ++ before).reverse := by simp
    rw [body, reversed, length_back, List.getElem?_append_right (Nat.le_refl _), Nat.sub_self]
    rfl

/-- Suffixes that differ at some distance from the end do not end the same name. -/
theorem isSome_cut?_apart (front front' back back' : List Char) (p p' : Char)
    (level : back.length = back'.length)
    (apart : ∀ c, sameLetter p c = true → sameLetter p' c = true → False)
    (h : (cut? (front ++ p :: back) name).isSome = true) :
    (cut? (front' ++ p' :: back') name).isSome = false := by
  refine Bool.eq_false_iff.2 fun h' => ?_
  obtain ⟨c, at_c, same⟩ := exists_letter h
  obtain ⟨c', at_c', same'⟩ := exists_letter h'
  rw [level, at_c'] at at_c
  obtain rfl := Option.some.inj at_c
  exact apart _ same same'

/-! ## The suffix classes -/

theorem isSource_iff {name : String} : isSource name = true ↔
    (cut? ['.', 't', 's'] name.toList).isSome = true ∨
      (cut? ['.', 't', 's', 'x'] name.toList).isSome = true := by
  simp [isSource, sourceSuffixes]

theorem isDeclaration_iff {name : String} : isDeclaration name = true ↔
    (cut? ['.', 'd', '.', 't', 's'] name.toList).isSome = true ∨
      (cut? ['.', 'd', '.', 't', 's', 'x'] name.toList).isSome = true := by
  simp [isDeclaration, declarationSuffixes]

/-- Declarations are checkable. -/
theorem isSource_of_isDeclaration {name : String} (h : isDeclaration name = true) :
    isSource name = true := by
  obtain h | h := isDeclaration_iff.1 h
  · exact isSource_iff.2 (.inl (isSome_cut?_of_append ['.', 'd'] _ h))
  · exact isSource_iff.2 (.inr (isSome_cut?_of_append ['.', 'd'] _ h))

/-- What is checkable is no script: `ts` and `js` differ in the last letter but one, and `tsx` ends
in another letter than `js`. -/
theorem not_isScript_of_isSource {name : String} (h : isSource name = true) :
    isScript name = false := by
  obtain h | h := isSource_iff.1 h
  · refine isSome_cut?_apart ['.'] ['.'] ['s'] ['s'] 't' 'j' rfl ?_ h
    intro c t
    obtain rfl | rfl := eq_of_sameLetter t (by decide) <;> decide
  · refine isSome_cut?_apart ['.', 't', 's'] ['.', 'j'] [] [] 'x' 's' rfl ?_ h
    intro c x
    obtain rfl | rfl := eq_of_sameLetter x (by decide) <;> decide

theorem not_isScript_of_isDeclaration {name : String} (h : isDeclaration name = true) :
    isScript name = false :=
  not_isScript_of_isSource (isSource_of_isDeclaration h)

/-- What ends in the suffix of a declaration is one, with or without a line break after it. -/
theorem isDeclaration_append_final (stem : String) {final : String}
    (h : final = "" ∨ final = "\n") : isDeclaration (stem ++ ".d.ts" ++ final) = true := by
  have found :
      (cut? ['.', 'd', '.', 't', 's'] (stem ++ ".d.ts" ++ final).toList).isSome = true := by
    rw [String.toList_append, String.toList_append,
      cut?_append _ (by decide) (by simp) (final_iff.1 h)]
    rfl
  exact isDeclaration_iff.2 (.inl found)

theorem isDeclaration_append (stem : String) : isDeclaration (stem ++ ".d.ts") = true := by
  simpa using isDeclaration_append_final stem (.inl rfl)

/-! ## Scripts and what stands next to them -/

/-- The ways to write the suffix of a script. -/
def scriptSpellings : List String := [".js", ".jS", ".jſ", ".Js", ".JS", ".Jſ"]

theorem spells_scriptSuffix :
    spells scriptSuffix written = true ↔ String.ofList written ∈ scriptSpellings := by
  constructor
  · intro spelled
    -- Two letters have two forms, and the last one has three: six spellings in all.
    match written, length_of_spells spelled with
    | [dot, j, s], _ =>
      simp only [scriptSuffix, spells_cons] at spelled
      obtain ⟨isDot, isJ, isS, -⟩ := spelled
      obtain rfl : dot = '.' := by simpa [sameLetter] using isDot
      obtain rfl | rfl : j = 'j' ∨ j = 'J' := eq_of_sameLetter isJ (by decide)
      all_goals
        obtain rfl | rfl | ⟨-, rfl⟩ := sameLetter_iff.1 isS <;> decide
  · intro listed
    have each : ∀ spelling ∈ scriptSpellings, spells scriptSuffix spelling.toList = true := by
      decide
    simpa using each _ listed

/-- A script as its stem, its suffix as written, and its final line break if it has one. -/
@[ext]
structure ScriptSplit (name : String) where
  stem : String
  suffix : String
  final : String
  spelled : suffix ∈ scriptSpellings
  final_eq : final = "" ∨ final = "\n"
  whole : name = stem ++ suffix ++ final

namespace ScriptSplit

variable {name : String}

/-- What is cut off a script are the parts of its split. -/
theorem cut?_eq (split : ScriptSplit name) : cut? scriptSuffix name.toList =
    some (split.stem.toList, split.suffix.toList, split.final.toList) := by
  have spelled : spells scriptSuffix split.suffix.toList = true := by
    rw [spells_scriptSuffix, String.ofList_toList]
    exact split.spelled
  -- No spelling ends in a line break, so that one after it is never taken for a part of it.
  have noBreak : (split.stem.toList ++ split.suffix.toList).getLast? ≠ some '\n' := by
    have each : ∀ spelling ∈ scriptSpellings, spelling.toList.getLast?.isSome = true ∧
        spelling.toList.getLast? ≠ some '\n' := by decide
    obtain ⟨last, plain⟩ := each _ split.spelled
    rwa [List.getLast?_append, Option.or_of_isSome last]
  have whole : name.toList =
      split.stem.toList ++ split.suffix.toList ++ split.final.toList := by
    rw [← String.toList_append, ← String.toList_append, ← split.whole]
  rw [whole, cut?_append _ spelled noBreak (final_iff.1 split.final_eq)]

/-- A script splits in one way. -/
theorem unique (split other : ScriptSplit name) : split = other := by
  have parts := split.cut?_eq.symm.trans other.cut?_eq
  simp only [Option.some.injEq, Prod.mk.injEq, String.toList_inj] at parts
  exact ScriptSplit.ext parts.1 parts.2.1 parts.2.2

/-- A rewrite changes the suffix and nothing else. -/
theorem replaceScriptSuffix_eq (split : ScriptSplit name) (replacement : List Char) :
    replaceScriptSuffix replacement name =
      split.stem ++ String.ofList replacement ++ split.final := by
  rw [replaceScriptSuffix, split.cut?_eq]
  simp only [String.ofList_append, String.ofList_toList]

theorem toDeclaration_eq (split : ScriptSplit name) :
    toDeclaration name = split.stem ++ ".d.ts" ++ split.final :=
  split.replaceScriptSuffix_eq _

theorem withoutScriptSuffix_eq (split : ScriptSplit name) :
    withoutScriptSuffix name = split.stem ++ split.final :=
  (split.replaceScriptSuffix_eq []).trans (by simp)

end ScriptSplit

variable {name : String}

/-- The names that split in this way are the scripts. -/
theorem isScript_iff : isScript name = true ↔ Nonempty (ScriptSplit name) := by
  constructor
  · intro script
    obtain ⟨⟨stem, written, final⟩, found⟩ := Option.isSome_iff_exists.1 script
    obtain ⟨whole, spelled, final_eq⟩ := of_cut? found
    refine ⟨⟨.ofList stem, .ofList written, .ofList final, spells_scriptSuffix.1 spelled, ?_, ?_⟩⟩
    · rwa [final_iff, String.toList_ofList]
    · rw [← String.ofList_append, ← String.ofList_append, ← whole, String.ofList_toList]
  · rintro ⟨split⟩
    rw [isScript, split.cut?_eq]
    rfl

/-- Whatever is no script stays as it is. -/
theorem replaceScriptSuffix_of_not_isScript (replacement : List Char)
    (h : isScript name = false) : replaceScriptSuffix replacement name = name := by
  rw [isScript, Option.isSome_eq_false_iff, Option.isNone_iff_eq_none] at h
  rw [replaceScriptSuffix, h]

/-- **What stands next to a script is a declaration**, with the final line break that the script
has. -/
theorem isDeclaration_toDeclaration (h : isScript name = true) :
    isDeclaration (toDeclaration name) = true := by
  obtain ⟨split⟩ := isScript_iff.1 h
  rw [split.toDeclaration_eq]
  exact isDeclaration_append_final _ split.final_eq

/-- The declaration next to a script has a name. -/
theorem toDeclaration_ne_empty (h : isScript name = true) : toDeclaration name ≠ "" := by
  intro empty
  have declared := isDeclaration_toDeclaration h
  rw [empty] at declared
  revert declared
  decide

/-- The declaration next to a script is no script, so that it stays as it is. -/
theorem toDeclaration_toDeclaration (name : String) :
    toDeclaration (toDeclaration name) = toDeclaration name := by
  cases script : isScript name with
  | true =>
    exact replaceScriptSuffix_of_not_isScript _
      (not_isScript_of_isDeclaration (isDeclaration_toDeclaration script))
  | false =>
    have kept : toDeclaration name = name := replaceScriptSuffix_of_not_isScript _ script
    rw [kept, kept]

/-- **Classes and rewrites agree on every name.** No script is checkable, and every declaration is.
The scripts are the names that split into a stem, a spelling of their suffix and at most one line
break; a script splits so in one way, and its rewrites put the suffix of a declaration, or nothing,
in the place of its own. The first of them leads to a declaration. Other names stay as they are,
and the declaration next to a script is not rewritten again. -/
theorem suffixes_consistent (name : String) :
    ¬ (isScript name = true ∧ isSource name = true) ∧
    (isDeclaration name = true → isSource name = true) ∧
    (isScript name = true ↔ Nonempty (ScriptSplit name)) ∧
    (∀ split other : ScriptSplit name, split = other) ∧
    (∀ split : ScriptSplit name, toDeclaration name = split.stem ++ ".d.ts" ++ split.final ∧
      withoutScriptSuffix name = split.stem ++ split.final ∧
      isDeclaration (toDeclaration name) = true) ∧
    (isScript name = false → toDeclaration name = name ∧ withoutScriptSuffix name = name) ∧
    toDeclaration (toDeclaration name) = toDeclaration name := by
  refine ⟨?_, isSource_of_isDeclaration, isScript_iff, fun split => split.unique, fun split => ?_,
    fun other => ?_, toDeclaration_toDeclaration name⟩
  · rintro ⟨script, source⟩
    rw [not_isScript_of_isSource source] at script
    cases script
  · exact ⟨split.toDeclaration_eq, split.withoutScriptSuffix_eq,
      isDeclaration_toDeclaration (isScript_iff.2 ⟨split⟩)⟩
  · exact ⟨replaceScriptSuffix_of_not_isScript _ other,
      replaceScriptSuffix_of_not_isScript _ other⟩

/-- Of several suffixes in a row the last one is cut off, in an unusual spelling and before a line
break, and what is left may be the name of a script again. -/
theorem suffixes_consistent_repeated :
    isScript "lib.d.ts.js.Jſ\n" = true ∧
      toDeclaration "lib.d.ts.js.Jſ\n" = "lib.d.ts.js.d.ts\n" ∧
      withoutScriptSuffix "lib.d.ts.js.Jſ\n" = "lib.d.ts.js\n" ∧
      isDeclaration (toDeclaration "lib.d.ts.js.Jſ\n") = true ∧
      isScript "lib.d.ts.js\n" = true := by
  let split : ScriptSplit "lib.d.ts.js.Jſ\n" :=
    ⟨"lib.d.ts.js", ".Jſ", "\n", by decide, .inr rfl, rfl⟩
  obtain ⟨-, -, script, -, rewrites, -, -⟩ := suffixes_consistent "lib.d.ts.js.Jſ\n"
  obtain ⟨declaration, rest, declared⟩ := rewrites split
  exact ⟨script.2 ⟨split⟩, declaration, rest, declared, by decide⟩

end DepGraph.Name
