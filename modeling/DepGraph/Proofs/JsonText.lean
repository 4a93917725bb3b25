import Mathlib.Tactic.IntervalCases
import DepGraph.Json.Printer
import DepGraph.Json.Reader
import DepGraph.Proofs.Mappings

/-!
# What is written as JSON reads back

A value that JSON has a form for is written on one line, and that line reads back as the value.

* `Value.Plain` — the values that JSON has a form for;
* `Json.readText?_encodeText`, `Json.readNumber?_toString` — texts and whole numbers;
* `Json.readValue?_encode` — a value followed by something else;
* `Json.read?_render` — **a line reads back as the value that it was written for;**
* `Json.newline_notMem_encode` — and it is one line.
-/

set_option autoImplicit false

namespace DepGraph

/-- Values that JSON has a form for: nulls, truth values, whole numbers, texts, lists, and mappings
whose keys are texts. -/
inductive Value.Plain : Value → Prop
  | null : Plain .null
  | bool (b : Bool) : Plain (.bool b)
  | int (i : Int) : Plain (.int i)
  | text (s : String) : Plain (.text s)
  | list {items : List Value} (each : ∀ v ∈ items, Plain v) : Plain (.list items)
  | map {es : Entries} (named : ∀ e ∈ es, ∃ name, e.1 = .text name) (distinct : es.Distinct)
      (each : ∀ e ∈ es, Plain e.2) : Plain (.map es)

namespace Json

/-! ## Texts -/

/-- The number of a control character reads back. -/
theorem readUnit?_control {n : Nat} (control : n < 32) (rest : List Char) :
    readUnit? (Text.hexDigits 4 n ++ rest) = some (n, rest) := by
  interval_cases n <;> rfl

/-- The three ways in which a character is written: by a letter, by number, or as it is. -/
theorem encodeChar_cases (c : Char) :
    (∃ e, e ≠ 'u' ∧ letterEscape? e = some c ∧ encodeChar .plain c = ['\\', e]) ∨
      c.toNat < 32 ∧ encodeChar .plain c = unitEscape c.toNat ∨
      (c ≠ '"' ∧ c ≠ '\\' ∧ 32 ≤ c.toNat) ∧ encodeChar .plain c = [c] := by
  have numbered : Char.ofNat c.toNat = c := Char.ofNat_toNat c
  by_cases quote : c = '"'
  · exact .inl ⟨'"', by decide, by rw [quote]; rfl, by rw [quote]; rfl⟩
  by_cases backslash : c = '\\'
  · exact .inl ⟨'\\', by decide, by rw [backslash]; rfl, by rw [backslash]; rfl⟩
  by_cases line : c = '\n'
  · exact .inl ⟨'n', by decide, by rw [line]; rfl, by rw [line]; rfl⟩
  by_cases back : c = '\r'
  · exact .inl ⟨'r', by decide, by rw [back]; rfl, by rw [back]; rfl⟩
  by_cases tab : c = '\t'
  · exact .inl ⟨'t', by decide, by rw [tab]; rfl, by rw [tab]; rfl⟩
  by_cases delete : c.toNat = 8
  · rw [delete] at numbered
    exact .inl ⟨'b', by decide, by rw [← numbered]; rfl, by rw [← numbered]; rfl⟩
  by_cases feed : c.toNat = 12
  · rw [feed] at numbered
    exact .inl ⟨'f', by decide, by rw [← numbered]; rfl, by rw [← numbered]; rfl⟩
  by_cases control : c.toNat < 32
  · exact .inr (.inl ⟨control, by
      simp [encodeChar, quote, backslash, line, back, tab, delete, feed, control]⟩)
  · exact .inr (.inr ⟨⟨quote, backslash, by omega⟩, by
      simp [encodeChar, quote, backslash, line, back, tab, delete, feed, control]⟩)

/-- **A character reads back**, however it is written. -/
theorem readText?_encodeChar (fuel : Nat) (acc : List Char) (c : Char) (rest : List Char) :
    readText? (fuel + 1) acc (encodeChar .plain c ++ rest) = readText? fuel (c :: acc) rest := by
  obtain ⟨e, letter, escape, written⟩ | ⟨control, written⟩ |
    ⟨⟨quote, backslash, printed⟩, written⟩ := encodeChar_cases c
  · rw [written]
    simp [readText?, escape]
  · have small : ¬ (0xD800 ≤ c.toNat ∧ c.toNat < 0xDC00) := by omega
    have unit : readEscapedUnit? (Text.hexDigits 4 c.toNat ++ rest) = some (c, rest) := by
      simp only [readEscapedUnit?, readUnit?_control control, Option.bind_eq_bind, Option.bind_some,
        if_neg small, Char.ofNat_toNat]
    rw [written, unitEscape, List.append_assoc]
    simp [readText?, unit]
  · have above : ¬ c.toNat < 32 := by omega
    rw [written]
    simp [readText?, quote, backslash, above]

/-- **A text reads back.** -/
theorem readText?_flatMap {s : List Char} {fuel : Nat} (enough : s.length < fuel)
    (acc rest : List Char) :
    readText? fuel acc (s.flatMap (encodeChar .plain) ++ '"' :: rest) =
      some (String.ofList (acc.reverse ++ s), rest) := by
  induction s generalizing fuel acc with
  | nil =>
    obtain ⟨fuel, rfl⟩ := Nat.exists_eq_add_one.2 enough
    simp [readText?]
  | cons c s ih =>
    obtain ⟨fuel, rfl⟩ := Nat.exists_eq_add_one.2 (Nat.zero_lt_of_lt enough)
    rw [List.flatMap_cons, List.append_assoc, readText?_encodeChar,
      ih (Nat.lt_of_succ_lt_succ enough), List.reverse_cons, List.append_assoc]
    rfl

/-- Every character takes at least one. -/
theorem length_le_flatMap (s : List Char) : s.length ≤ (s.flatMap (encodeChar .plain)).length := by
  induction s with
  | nil => exact Nat.le_refl _
  | cons c s ih =>
    have one : 1 ≤ (encodeChar .plain c).length := by
      obtain ⟨e, -, -, written⟩ | ⟨-, written⟩ | ⟨-, written⟩ := encodeChar_cases c <;>
        simp [written, unitEscape]
    rw [List.flatMap_cons, List.length_append, List.length_cons]
    omega

/-- A text between quotation marks reads back, whatever comes after it. -/
theorem readText?_encodeText (s : String) (rest : List Char) :
    ∃ quoted, encodeText .plain s.toList ++ rest = '"' :: quoted ∧
      readText? (quoted.length + 1) [] quoted = some (s, rest) := by
  refine ⟨s.toList.flatMap (encodeChar .plain) ++ '"' :: rest, by simp [encodeText], ?_⟩
  have shorter := length_le_flatMap s.toList
  rw [readText?_flatMap (by rw [List.length_append]; omega)]
  simp

/-! ## Whole numbers -/

/-- What may come after a value: nothing, or a mark that separates or closes. -/
def Stops (rest : List Char) : Prop :=
  ∀ c more, rest = c :: more → c = ',' ∨ c = ']' ∨ c = '\x7d'

theorem stops_nil : Stops [] := nofun

theorem stops_cons {c : Char} {rest : List Char} (mark : c = ',' ∨ c = ']' ∨ c = '\x7d') :
    Stops (c :: rest) := by
  rintro _ _ ⟨⟩
  exact mark

/-- The digits of a number are what is taken off in front of a mark. -/
theorem takeWhile_toDigits (n : Nat) {rest : List Char} (stops : Stops rest) :
    (Nat.toDigits 10 n ++ rest).takeWhile Char.isDigit = Nat.toDigits 10 n ∧
      (Nat.toDigits 10 n ++ rest).dropWhile Char.isDigit = rest := by
  have digits : ∀ c ∈ Nat.toDigits 10 n, c.isDigit = true := fun c hc =>
    Nat.isDigit_of_mem_toDigits (by decide) (by decide) hc
  have ends : rest.takeWhile Char.isDigit = [] ∧ rest.dropWhile Char.isDigit = rest := by
    cases rest with
    | nil => exact ⟨rfl, rfl⟩
    | cons c rest => obtain rfl | rfl | rfl := stops c rest rfl <;> exact ⟨rfl, rfl⟩
  rw [List.takeWhile_append_of_pos digits, List.dropWhile_append_of_pos digits, ends.1, ends.2,
    List.append_nil]
  exact ⟨rfl, rfl⟩

/-- The digits of a number read back as that number, with a sign or without. -/
theorem readNumber?_toDigits (n : Nat) {rest : List Char} (stops : Stops rest) :
    readNumber? (Nat.toDigits 10 n ++ rest) = some (.int n, rest) ∧
      readNumber? ('-' :: (Nat.toDigits 10 n ++ rest)) = some (.int (-n), rest) := by
  obtain ⟨taken, dropped⟩ := takeWhile_toDigits n stops
  have some_digits : (Nat.toDigits 10 n).isEmpty = false := by
    simp [Nat.toDigits_ne_nil]
  have unsigned : ∀ more, Nat.toDigits 10 n ++ rest ≠ '-' :: more := by
    intro more signed
    rw [signed] at taken
    exact Nat.toDigits_ne_nil taken.symm
  have value := Text.natOfDigits_toDigits n
  generalize Nat.toDigits 10 n ++ rest = s at *
  -- neither a point nor an exponent comes after the digits
  cases rest with
  | nil => simp [readNumber?, taken, dropped, some_digits, value]
  | cons c rest =>
    obtain rfl | rfl | rfl := stops c rest rfl <;>
      simp [readNumber?, taken, dropped, some_digits, value]

/-- **A whole number reads back.** -/
theorem readNumber?_toString (i : Int) {rest : List Char} (stops : Stops rest) :
    readNumber? ((toString i).toList ++ rest) = some (.int i, rest) := by
  rw [Int.toString_eq_repr, Int.repr_eq_if]
  split
  · rename_i positive
    rw [Nat.toList_repr, (readNumber?_toDigits i.toNat stops).1, Int.toNat_of_nonneg positive]
  · rename_i negative
    rw [String.toList_append, Nat.toList_repr, List.append_assoc]
    refine (readNumber?_toDigits (-i).toNat stops).2.trans ?_
    rw [Int.toNat_of_nonneg (by omega), Int.neg_neg]

/-- A whole number starts with a sign or a digit. -/
theorem toString_head (i : Int) :
    ∃ c s, (toString i).toList = c :: s ∧ (c = '-' ∨ c.isDigit = true) := by
  have head : ∀ n, ∃ c s, Nat.toDigits 10 n = c :: s ∧ c.isDigit = true := by
    intro n
    obtain ⟨c, s, digits⟩ := List.exists_cons_of_ne_nil (Nat.toDigits_ne_nil (n := n) (b := 10))
    exact ⟨c, s, digits, Nat.isDigit_of_mem_toDigits (by decide) (by decide)
      (digits ▸ List.mem_cons_self)⟩
  rw [Int.toString_eq_repr, Int.repr_eq_if]
  split
  · obtain ⟨c, s, digits, digit⟩ := head i.toNat
    exact ⟨c, s, by rw [Nat.toList_repr, digits], .inr digit⟩
  · exact ⟨'-', Nat.toDigits 10 (-i).toNat, by rw [String.toList_append, Nat.toList_repr]; rfl,
      .inl rfl⟩

/-! ## Values -/

theorem skipSpace_blank (s : List Char) : skipSpace (' ' :: s) = skipSpace s := rfl

theorem skipSpace_cons {c : Char} (printed : isSpace c = false) (s : List Char) :
    skipSpace (c :: s) = c :: s := by
  simp [skipSpace, printed]

/-- What starts a whole number starts nothing else. -/
theorem ne_of_starts_number {c d : Char} (starts : c = '-' ∨ c.isDigit = true) (other : d ≠ '-')
    (letter : d.isDigit = false) : c ≠ d := by
  rintro rfl
  obtain sign | digit := starts
  · exact other sign
  · rw [letter] at digit
    cases digit

/-- A mark or a digit or a letter comes first, and no closing bracket. -/
theorem encode_head {v : Value} (plain : v.Plain) :
    ∃ c s, encode .plain v = c :: s ∧ isSpace c = false ∧ c ≠ ']' := by
  cases plain with
  | null => exact ⟨'n', _, rfl, rfl, by decide⟩
  | bool b =>
    cases b with
    | false => exact ⟨'f', _, rfl, rfl, by decide⟩
    | true => exact ⟨'t', _, rfl, rfl, by decide⟩
  | int i =>
    obtain ⟨c, s, written, starts⟩ := toString_head i
    refine ⟨c, s, by rw [encode, encodeScalar, written], ?_,
      ne_of_starts_number starts (by decide) rfl⟩
    simp [isSpace, ne_of_starts_number starts]
  | text s => exact ⟨'"', _, by rw [encode, encodeScalar, encodeText]; rfl, rfl, by decide⟩
  | list each => exact ⟨'[', _, by rw [encode]; rfl, rfl, by decide⟩
  | map named distinct each => exact ⟨'\x7b', _, by rw [encode]; rfl, rfl, by decide⟩

/-- Whatever starts as a whole number is read as a number. -/
theorem readValue?_number {c : Char} {s : List Char} (starts : c = '-' ∨ c.isDigit = true)
    (fuel : Nat) : readValue? (fuel + 1) (c :: s) =
      (readNumber? (c :: s)).map fun (number, rest) => (.scalar number, rest) := by
  have printed : isSpace c = false := by simp [isSpace, ne_of_starts_number starts]
  have quote : c ≠ '"' := ne_of_starts_number starts (by decide) rfl
  have bracket : c ≠ '[' := ne_of_starts_number starts (by decide) rfl
  have brace : c ≠ '\x7b' := ne_of_starts_number starts (by decide) rfl
  have n : c ≠ 'n' := ne_of_starts_number starts (by decide) rfl
  have t : c ≠ 't' := ne_of_starts_number starts (by decide) rfl
  have f : c ≠ 'f' := ne_of_starts_number starts (by decide) rfl
  simp [readValue?, skipSpace_cons printed, readWord?, quote, bracket, brace, n, t, f]

theorem readValue?_blank (fuel : Nat) (s : List Char) :
    readValue? fuel (' ' :: s) = readValue? fuel s := by
  cases fuel with
  | zero => rfl
  | succ fuel => simp [readValue?, skipSpace_blank]

theorem readItems?_blank (fuel : Nat) (s : List Char) :
    readItems? fuel (' ' :: s) = readItems? fuel s := by
  cases fuel with
  | zero => rfl
  | succ fuel => simp [readItems?, readValue?_blank]

theorem readEntries?_blank (fuel : Nat) (s : List Char) :
    readEntries? fuel (' ' :: s) = readEntries? fuel s := by
  cases fuel with
  | zero => rfl
  | succ fuel => simp [readEntries?, skipSpace_blank]

/-- A value reads back, whatever it is followed by. -/
def ReadsBack (v : Value) : Prop :=
  ∀ (fuel : Nat) (rest : List Char), (encode .plain v).length ≤ fuel → Stops rest →
    readValue? fuel (encode .plain v ++ rest) = some (v, rest)

/-- Items read back if each does. -/
theorem readItems?_encodeItems {items : List Value} (nonempty : items ≠ [])
    (each : ∀ v ∈ items, ReadsBack v) (fuel : Nat) (rest : List Char)
    (enough : (encodeItems .plain items).length + 1 ≤ fuel) :
    readItems? fuel (encodeItems .plain items ++ ']' :: rest) = some (items, rest) := by
  induction items generalizing fuel with
  | nil => exact absurd rfl nonempty
  | cons x items ih =>
    obtain ⟨fuel, rfl⟩ := Nat.exists_eq_add_one.2 (Nat.zero_lt_of_lt enough)
    cases items with
    | nil =>
      rw [encodeItems] at enough ⊢
      have first := each x List.mem_cons_self fuel (']' :: rest) (by omega)
        (stops_cons (.inr (.inl rfl)))
      simp [readItems?, first, skipSpace, isSpace]
    | cons y items =>
      rw [encodeItems] at enough ⊢
      simp only [List.length_append, List.length_cons] at enough
      have first := each x List.mem_cons_self fuel
        (',' :: ' ' :: (encodeItems .plain (y :: items) ++ ']' :: rest)) (by omega)
        (stops_cons (.inl rfl))
      have others := ih (List.cons_ne_nil y items)
        (fun v hv => each v (List.mem_cons_of_mem x hv)) fuel (by omega)
      simp [readItems?, first, skipSpace, isSpace, readItems?_blank, others]

/-- An entry reads back up to the mark after it. -/
theorem readEntries?_entry {v : Value} (reads : ReadsBack v) (name : String) (fuel : Nat)
    (enough : (encode .plain v).length ≤ fuel) (rest : List Char) :
    let entry := fun c => encodeText .plain name.toList ++
      ':' :: ' ' :: (encode .plain v ++ c :: rest)
    readEntries? (fuel + 1) (entry '\x7d') = some ([(.text name, v)], rest) ∧
      readEntries? (fuel + 1) (entry ',') =
        (readEntries? fuel rest).map fun (es, rest) => ((.text name, v) :: es, rest) := by
  intro entry
  constructor
  · have value := reads fuel ('\x7d' :: rest) enough (stops_cons (.inr (.inr rfl)))
    obtain ⟨quoted, written, key⟩ :=
      readText?_encodeText name (':' :: ' ' :: (encode .plain v ++ '\x7d' :: rest))
    simp [entry, written, readEntries?, key, skipSpace, isSpace, readValue?_blank, value]
  · have value := reads fuel (',' :: rest) enough (stops_cons (.inl rfl))
    obtain ⟨quoted, written, key⟩ :=
      readText?_encodeText name (':' :: ' ' :: (encode .plain v ++ ',' :: rest))
    cases others : readEntries? fuel rest <;>
      simp [entry, written, readEntries?, key, skipSpace, isSpace, readValue?_blank, value, others]

/-- Entries under texts read back if their values do. -/
theorem readEntries?_encodeEntries {es : Entries} (nonempty : es ≠ [])
    (named : ∀ e ∈ es, ∃ name, e.1 = .text name) (each : ∀ e ∈ es, ReadsBack e.2) (fuel : Nat)
    (rest : List Char) (enough : (encodeEntries .plain es).length + 1 ≤ fuel) :
    readEntries? fuel (encodeEntries .plain es ++ '\x7d' :: rest) = some (es, rest) := by
  induction es generalizing fuel with
  | nil => exact absurd rfl nonempty
  | cons e es ih =>
    obtain ⟨k, v⟩ := e
    obtain ⟨name, rfl⟩ : ∃ name, k = .text name := named (k, v) List.mem_cons_self
    have reads : ReadsBack v := each (.text name, v) List.mem_cons_self
    obtain ⟨fuel, rfl⟩ := Nat.exists_eq_add_one.2 (Nat.zero_lt_of_lt enough)
    cases es with
    | nil =>
      rw [encodeEntries, keyText] at enough ⊢
      simp only [List.length_append, List.length_cons] at enough
      have entry := (readEntries?_entry reads name fuel (by omega) rest).1
      simpa using entry
    | cons f es =>
      rw [encodeEntries, keyText] at enough ⊢
      simp only [List.length_append, List.length_cons] at enough
      have entry := (readEntries?_entry reads name fuel (by omega)
        (' ' :: (encodeEntries .plain (f :: es) ++ '\x7d' :: rest))).2
      have others := ih (List.cons_ne_nil f es) (fun g hg => named g (List.mem_cons_of_mem _ hg))
        (fun g hg => each g (List.mem_cons_of_mem _ hg)) fuel (by omega)
      rw [readEntries?_blank, others] at entry
      simpa using entry

/-- What is written of items starts with the first. -/
theorem encodeItems_cons (x : Value) (items : List Value) :
    ∃ more, encodeItems .plain (x :: items) = encode .plain x ++ more := by
  cases items with
  | nil => exact ⟨[], by rw [encodeItems, List.append_nil]⟩
  | cons y items => exact ⟨_, by rw [encodeItems]⟩

/-- What is written of entries starts with a quotation mark. -/
theorem encodeEntries_cons (e : Scalar × Value) (es : Entries) :
    ∃ more, encodeEntries .plain (e :: es) = '"' :: more := by
  cases es with
  | nil => exact ⟨_, by rw [encodeEntries, encodeText]; rfl⟩
  | cons f es => exact ⟨_, by rw [encodeEntries, encodeText]; rfl⟩

/-- **A value reads back**, whatever it is followed by. -/
theorem readValue?_encode {v : Value} (plain : v.Plain) : ReadsBack v := by
  induction plain with
  | null =>
    intro fuel rest enough stops
    obtain ⟨fuel, rfl⟩ := Nat.exists_eq_add_one.2 (Nat.lt_of_lt_of_le (by decide) enough)
    rfl
  | bool b =>
    intro fuel rest enough stops
    cases b <;>
    · obtain ⟨fuel, rfl⟩ := Nat.exists_eq_add_one.2 (Nat.lt_of_lt_of_le (by decide) enough)
      rfl
  | int i =>
    intro fuel rest enough stops
    obtain ⟨c, s, written, starts⟩ := toString_head i
    have number := readNumber?_toString i stops
    rw [encode, encodeScalar] at enough ⊢
    rw [written] at enough number ⊢
    obtain ⟨fuel, rfl⟩ := Nat.exists_eq_add_one.2 (Nat.lt_of_lt_of_le (Nat.succ_pos _) enough)
    rw [List.cons_append, readValue?_number starts, ← List.cons_append, number]
    rfl
  | text s =>
    intro fuel rest enough stops
    obtain ⟨quoted, written, reads⟩ := readText?_encodeText s rest
    rw [encode, encodeScalar] at enough ⊢
    obtain ⟨fuel, rfl⟩ := Nat.exists_eq_add_one.2 (Nat.lt_of_lt_of_le (Nat.succ_pos _) enough)
    rw [written]
    simp [readValue?, skipSpace, isSpace, reads]
  | list each ih =>
    rename_i items
    intro fuel rest enough stops
    rw [encode] at enough ⊢
    obtain ⟨fuel, rfl⟩ := Nat.exists_eq_add_one.2 (Nat.lt_of_lt_of_le (Nat.succ_pos _) enough)
    cases items with
    | nil => simp [readValue?, encodeItems, skipSpace, isSpace]
    | cons x items =>
      simp only [List.length_append, List.length_cons] at enough
      have reads := readItems?_encodeItems (List.cons_ne_nil x items) ih fuel rest (by omega)
      obtain ⟨c, s, first, printed, opens⟩ := encode_head (each x List.mem_cons_self)
      obtain ⟨more, written⟩ := encodeItems_cons x items
      rw [first] at written
      rw [written] at reads ⊢
      simp only [List.cons_append, List.append_assoc, List.nil_append] at reads ⊢
      simp [readValue?, skipSpace_cons printed, skipSpace_cons (c := '[') rfl, opens, reads]
  | map named distinct each ih =>
    rename_i es
    intro fuel rest enough stops
    rw [encode] at enough ⊢
    obtain ⟨fuel, rfl⟩ := Nat.exists_eq_add_one.2 (Nat.lt_of_lt_of_le (Nat.succ_pos _) enough)
    cases es with
    | nil => simp [readValue?, encodeEntries, skipSpace, isSpace]
    | cons e es =>
      simp only [List.length_append, List.length_cons] at enough
      have reads := readEntries?_encodeEntries (List.cons_ne_nil e es) named ih fuel rest (by omega)
      obtain ⟨more, written⟩ := encodeEntries_cons e es
      rw [written] at reads ⊢
      simp only [List.cons_append, List.append_assoc, List.nil_append] at reads ⊢
      simp [readValue?, skipSpace_cons (c := '"') rfl, skipSpace_cons (c := '\x7b') rfl, reads,
        Entries.ofList_of_distinct distinct]

/-- **A line reads back as the value that it was written for.** -/
theorem read?_render {v : Value} (plain : v.Plain) : read? (render .plain v) = some v := by
  have reads := readValue?_encode plain (2 * (encode .plain v).length + 2) [] (by omega) stops_nil
  rw [List.append_nil] at reads
  simp [read?, render, reads, skipSpace]

/-! ## One line -/

theorem newline_notMem_hexDigits (width n : Nat) : '\n' ∉ Text.hexDigits width n := by
  induction width generalizing n with
  | zero => exact List.not_mem_nil
  | succ width ih =>
    have digits : ∀ d < 16, Text.hexDigit d ≠ '\n' := by decide
    rw [Text.hexDigits, List.mem_append, List.mem_singleton]
    rintro (front | last)
    · exact ih _ front
    · exact digits _ (Nat.mod_lt _ (by decide)) last.symm

theorem newline_notMem_encodeText (s : List Char) : '\n' ∉ encodeText .plain s := by
  have each : ∀ c, '\n' ∉ encodeChar .plain c := by
    intro c
    obtain ⟨e, -, escape, written⟩ | ⟨-, written⟩ | ⟨⟨-, -, printed⟩, written⟩ :=
      encodeChar_cases c
    · have letter : e ≠ '\n' := by
        rintro rfl
        cases escape
      simp [written, letter.symm]
    · simp [written, unitEscape, newline_notMem_hexDigits]
    · rw [written, List.mem_singleton]
      rintro rfl
      exact absurd printed (by decide)
  simp [encodeText, each]

theorem newline_notMem_toString (i : Int) : '\n' ∉ (toString i).toList := by
  have digits : ∀ n, '\n' ∉ Nat.toDigits 10 n := fun n line =>
    absurd (Nat.isDigit_of_mem_toDigits (by decide) (by decide) line) (by decide)
  rw [Int.toString_eq_repr, Int.repr_eq_if]
  split <;> simp [digits]

theorem newline_notMem_encodeItems {items : List Value}
    (each : ∀ v ∈ items, '\n' ∉ encode .plain v) : '\n' ∉ encodeItems .plain items := by
  induction items with
  | nil => simp [encodeItems]
  | cons x items ih =>
    have others := ih fun v hv => each v (List.mem_cons_of_mem x hv)
    cases items with
    | nil => simpa [encodeItems] using each x List.mem_cons_self
    | cons y items => simp [encodeItems, each x List.mem_cons_self, others]

theorem newline_notMem_encodeEntries {es : Entries} (each : ∀ e ∈ es, '\n' ∉ encode .plain e.2) :
    '\n' ∉ encodeEntries .plain es := by
  induction es with
  | nil => simp [encodeEntries]
  | cons e es ih =>
    have value := each e List.mem_cons_self
    have others := ih fun f hf => each f (List.mem_cons_of_mem e hf)
    cases es with
    | nil => simp [encodeEntries, newline_notMem_encodeText, value]
    | cons f es => simp [encodeEntries, newline_notMem_encodeText, value, others]

/-- **What is written of a value is one line.** -/
theorem newline_notMem_encode {v : Value} (plain : v.Plain) : '\n' ∉ encode .plain v := by
  induction plain with
  | null => decide
  | bool b => cases b <;> decide
  | int i => exact newline_notMem_toString i
  | text s => exact newline_notMem_encodeText s.toList
  | list each ih => simp [encode, newline_notMem_encodeItems ih]
  | map named distinct each ih => simp [encode, newline_notMem_encodeEntries ih]

end Json

end DepGraph
