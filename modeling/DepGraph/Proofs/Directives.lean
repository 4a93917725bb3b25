import Mathlib.Data.List.TakeDrop
import Mathlib.Data.List.TakeWhile
import DepGraph.Source.Extract

/-!
# Directives read back

A directive is written as a tag with quoted attributes. What is read of it is what was written, up
to the first value with a greater-than sign: there the tag is taken to end.

* `Written`, `Tag`, `Remark` — an attribute, a directive and a comment as they are written;
* `attributes_append` — an attribute is read as it was written;
* `readable` — the attributes that are read of a tag;
* `Node.extract_block` — what is read of a block of comments;
* `Node.extract_written` — it is what was written if no value holds a greater-than sign.
-/

set_option autoImplicit false

namespace DepGraph.Source

open DepGraph.Text

/-! ## Characters -/

/-- The code points of all blanks. -/
def blankPoints : List Nat :=
  List.range' 9 5 ++ List.range' 28 5 ++ List.range' 0x2000 11 ++
    [0x85, 0xA0, 0x1680, 0x2028, 0x2029, 0x202F, 0x205F, 0x3000]

/-- No blank belongs to a name. -/
theorem isAttributeChar_of_isBlank {c : Char} (blank : isBlank c) : isAttributeChar c = false := by
  have listed : c.toNat ∈ blankPoints := by
    simp only [isBlank, Bool.or_eq_true, Bool.and_eq_true, decide_eq_true_eq, beq_iff_eq] at blank
    simp only [blankPoints, List.mem_append, List.mem_range'_1, List.mem_cons, List.not_mem_nil,
      or_false]
    omega
  have every : ∀ n ∈ blankPoints, isAttributeChar (Char.ofNat n) = false := by decide +kernel
  have := every _ listed
  rwa [Char.ofNat_toNat] at this

/-! ## Reading attributes -/

theorem length_quotedValue? {s value rest : List Char}
    (found : quotedValue? s = some (value, rest)) : rest.length < s.length := by
  unfold quotedValue? at found
  split at found
  next after equals =>
    split at found
    next quote t opened =>
      split at found
      · split at found
        next v r split =>
          cases found
          have shorter := (List.dropWhile_sublist (l := s) isBlank).length_le
          have shorter' := (List.dropWhile_sublist (l := after) isBlank).length_le
          have parts := congrArg (·.2.length) split
          simp only [List.span_eq_takeWhile_dropWhile, List.length_cons] at parts
          have shorter'' := (List.dropWhile_sublist (l := t) (· != quote)).length_le
          rw [equals, List.length_cons] at shorter
          rw [opened, List.length_cons] at shorter'
          omega
        · cases found
      · cases found
    · cases found
  · cases found

/-- More fuel than the text is long changes nothing. -/
theorem attributesFrom_eq {fuel : Nat} {s : List Char} (enough : s.length ≤ fuel) :
    attributesFrom fuel s = attributes s := by
  have any (n : Nat) : ∀ (m : Nat) (s : List Char), s.length ≤ n → s.length ≤ m →
      attributesFrom n s = attributesFrom m s := by
    induction n with
    | zero => 
      intro m s hn hm
      obtain rfl := List.length_eq_zero_iff.mp (Nat.le_zero.mp hn)
      cases m <;> rfl
    | succ n ih =>
      intro m s hn hm
      cases s with
      | nil => cases m <;> rfl
      | cons c s =>
        cases m with
        | zero => cases hm
        | succ m =>
          rw [List.length_cons] at hn hm
          simp only [attributesFrom]
          split
          next named =>
            have shorter : ((c :: s).dropWhile isAttributeChar).length ≤ s.length := by
              rw [List.dropWhile_cons_of_pos named]
              exact (List.dropWhile_sublist isAttributeChar).length_le
            rw [List.span_eq_takeWhile_dropWhile]
            dsimp only
            split
            next value rest quoted =>
              have := length_quotedValue? quoted
              rw [ih m rest (by omega) (by omega)]
            next => exact ih m _ (by omega) (by omega)
          next => exact ih m s (by omega) (by omega)
  exact any fuel s.length s enough (Nat.le_refl _)

theorem attributes_cons {c : Char} (other : isAttributeChar c = false) (s : List Char) :
    attributes (c :: s) = attributes s := by
  rw [attributes, List.length_cons, attributesFrom, other, if_neg Bool.false_ne_true]
  rfl

theorem attributes_append_of_other {gap : List Char} (other : ∀ c ∈ gap, isAttributeChar c = false)
    (s : List Char) : attributes (gap ++ s) = attributes s := by
  induction gap with
  | nil => rfl
  | cons c gap ih =>
    rw [List.cons_append, attributes_cons (other c List.mem_cons_self)]
    exact ih fun d inside => other d (List.mem_cons_of_mem c inside)

theorem dropWhile_eq_self {p : Char → Bool} {s : List Char} (ends : ∀ c ∈ s.head?, p c = false) :
    s.dropWhile p = s := by
  cases s with
  | nil => rfl
  | cons c s => rw [List.dropWhile_cons, ends c rfl, if_neg Bool.false_ne_true]

theorem takeWhile_eq_nil {p : Char → Bool} {s : List Char} (ends : ∀ c ∈ s.head?, p c = false) :
    s.takeWhile p = [] := by
  cases s with
  | nil => rfl
  | cons c s => rw [List.takeWhile_cons, ends c rfl, if_neg Bool.false_ne_true]

/-- A name is read as far as it goes. -/
theorem attributes_name {name s : List Char} (nonempty : name ≠ [])
    (chars : ∀ c ∈ name, isAttributeChar c) (ends : ∀ c ∈ s.head?, isAttributeChar c = false) :
    attributes (name ++ s) =
      match quotedValue? s with
      | some (value, rest) => ⟨name, value⟩ :: attributes rest
      | none => attributes s := by
  have whole : (name ++ s).span isAttributeChar = (name, s) := by
    rw [List.span_eq_takeWhile_dropWhile, List.takeWhile_append_of_pos chars,
      List.dropWhile_append_of_pos chars, dropWhile_eq_self ends, takeWhile_eq_nil ends,
      List.append_nil]
  obtain ⟨c, name, rfl⟩ := List.exists_cons_of_ne_nil nonempty
  rw [attributes, List.cons_append, List.length_cons, attributesFrom,
    if_pos (chars c List.mem_cons_self), ← List.cons_append, whole]
  dsimp only
  have fits : s.length ≤ (name ++ s).length := by rw [List.length_append]; omega
  cases quoted : quotedValue? s with
  | none => exact attributesFrom_eq fits
  | some found =>
    obtain ⟨value, rest⟩ := found
    have := length_quotedValue? quoted
    exact congrArg _ (attributesFrom_eq (by omega))

/-! ## Attributes as they are written -/

/-- Blanks within a line. -/
def IsGap (s : List Char) : Prop := ∀ c ∈ s, isBlank c ∧ isLineEnd c = false

/-- An attribute as it is written: blanks, a name, an equals sign and a quoted value, with further
blanks around the equals sign. The value is any text of one line without the quotation mark. -/
structure Written where
  before : List Char
  name : List Char
  beforeEquals : List Char
  afterEquals : List Char
  quote : Char
  value : List Char
  before_nonempty : before ≠ []
  before_gap : IsGap before
  beforeEquals_gap : IsGap beforeEquals
  afterEquals_gap : IsGap afterEquals
  name_nonempty : name ≠ []
  name_chars : ∀ c ∈ name, isAttributeChar c
  isQuote : quote = '"' ∨ quote = '\''
  value_quoted : quote ∉ value
  value_line : ∀ c ∈ value, isLineEnd c = false

namespace Written

variable (a : Written)

/-- The name and the value that are written. -/
def meaning : Attribute := ⟨a.name, a.value⟩

/-- What stands between the name and the value. -/
def assignment : List Char := a.beforeEquals ++ '=' :: (a.afterEquals ++ [a.quote])

/-- The text of an attribute. -/
def text : List Char := a.before ++ a.name ++ a.assignment ++ a.value ++ [a.quote]

end Written

theorem IsGap.other {gap : List Char} (blank : IsGap gap) :
    ∀ c ∈ gap, isAttributeChar c = false :=
  fun c inside => isAttributeChar_of_isBlank (blank c inside).1

theorem IsGap.dropWhile_append {gap : List Char} (blank : IsGap gap) (s : List Char) :
    (gap ++ s).dropWhile isBlank = s.dropWhile isBlank :=
  List.dropWhile_append_of_pos fun c inside => (blank c inside).1

namespace Written

variable (a : Written)

theorem quote_other : isAttributeChar a.quote = false ∧ isBlank a.quote = false ∧
    (a.quote == '"' || a.quote == '\'') ∧ a.quote ≠ '>' ∧ a.quote ≠ '/' := by
  rcases a.isQuote with same | same <;> rw [same] <;> decide

theorem assignment_other : ∀ c ∈ a.assignment, isAttributeChar c = false := by
  intro c inside
  simp only [assignment, List.mem_append, List.mem_cons, List.not_mem_nil, or_false] at inside
  rcases inside with inside | rfl | inside | rfl
  · exact a.beforeEquals_gap.other c inside
  · decide
  · exact a.afterEquals_gap.other c inside
  · exact a.quote_other.1

/-- What is read after a name is the text up to the next quotation mark of the kind that opens it. -/
theorem quotedValue?_assignment (s : List Char) :
    quotedValue? (a.assignment ++ s) =
      match s.span (· != a.quote) with
      | (value, _ :: rest) => some (value, rest)
      | (_, []) => none := by
  obtain ⟨-, visible, quote, -⟩ := a.quote_other
  have equals : (a.assignment ++ s).dropWhile isBlank = '=' :: (a.afterEquals ++ a.quote :: s) := by
    rw [assignment, List.append_assoc, a.beforeEquals_gap.dropWhile_append, List.cons_append,
      List.dropWhile_cons_of_neg (by decide), List.append_assoc, List.singleton_append]
  have opened : (a.afterEquals ++ a.quote :: s).dropWhile isBlank = a.quote :: s := by
    rw [a.afterEquals_gap.dropWhile_append,
      List.dropWhile_cons_of_neg (by rw [visible]; exact Bool.false_ne_true)]
  rcases found : s.span (· != a.quote) with ⟨value, _ | ⟨_, rest⟩⟩ <;>
    simp only [quotedValue?, equals, opened, quote, if_true, found]

/-- A value that is closed is read. -/
theorem quotedValue?_closed (s : List Char) :
    quotedValue? (a.assignment ++ (a.value ++ a.quote :: s)) = some (a.value, s) := by
  have inside : ∀ c ∈ a.value, (c != a.quote) = true := fun c inside =>
    bne_iff_ne.mpr fun same => a.value_quoted (same ▸ inside)
  have closed : (a.value ++ a.quote :: s).span (· != a.quote) = (a.value, a.quote :: s) := by
    simp [List.span_eq_takeWhile_dropWhile, List.takeWhile_append_of_pos inside,
      List.dropWhile_append_of_pos inside]
  simp only [quotedValue?_assignment, closed]

/-- A value that is not closed is none. -/
theorem quotedValue?_open {s : List Char} (unclosed : a.quote ∉ s) :
    quotedValue? (a.assignment ++ s) = none := by
  have inside : ∀ c ∈ s, (c != a.quote) = true := fun c inside =>
    bne_iff_ne.mpr fun same => unclosed (same ▸ inside)
  rw [quotedValue?_assignment, List.span_eq_takeWhile_dropWhile,
    List.dropWhile_eq_nil_iff.mpr inside]

/-- Behind a name nothing of the name follows. -/
theorem head?_assignment (s : List Char) :
    ∀ c ∈ (a.assignment ++ s).head?, isAttributeChar c = false := by
  intro c first
  obtain ⟨d, rest, starts⟩ := List.exists_cons_of_ne_nil (l := a.assignment) (by simp [assignment])
  rw [starts, List.cons_append, List.head?_cons] at first
  cases first
  exact a.assignment_other _ (starts ▸ List.mem_cons_self)

/-- **An attribute is read as it was written.** -/
theorem attributes_append (s : List Char) :
    attributes (a.text ++ s) = a.meaning :: attributes s := by
  have parts : a.text ++ s = a.before ++ (a.name ++ (a.assignment ++ (a.value ++ a.quote :: s))) := by
    simp only [text, List.append_assoc, List.singleton_append]
  rw [parts, attributes_append_of_other a.before_gap.other,
    attributes_name a.name_nonempty a.name_chars (a.head?_assignment _), quotedValue?_closed]
  rfl

/-- An attribute that is not closed is passed over, up to its value. -/
theorem attributes_append_open {s : List Char} (unclosed : a.quote ∉ s) :
    attributes (a.before ++ (a.name ++ (a.assignment ++ s))) = attributes s := by
  rw [attributes_append_of_other a.before_gap.other,
    attributes_name a.name_nonempty a.name_chars (a.head?_assignment _),
    a.quotedValue?_open unclosed]
  exact attributes_append_of_other a.assignment_other s

end Written

/-! ## Tags as they are written -/

/-- A directive as it is written: three slashes and a tag with at least one attribute, with blanks
before the tag and at its end. -/
structure Tag where
  before : List Char
  attributes : List Written
  after : List Char
  before_gap : IsGap before
  after_gap : IsGap after
  nonempty : attributes ≠ []

/-- The text of several attributes. -/
def Written.all (as : List Written) : List Char := as.flatMap Written.text

/-- The text of a tag after its name. -/
def Tag.body (t : Tag) : List Char := Written.all t.attributes ++ (t.after ++ ['/', '>'])

/-- The text of the comment that a directive stands in. -/
def Tag.text (t : Tag) : List Char :=
  ['/', '/', '/'] ++ (t.before ++ ("<reference".toList ++ t.body))

/-- A text without a slash at its end. -/
def withoutSlash (s : List Char) : List Char := if s.getLast? == some '/' then s.dropLast else s

/-- What is taken for the rest of a tag: the text up to a greater-than sign, without a slash before
that. -/
def upToEnd (s : List Char) : List Char := withoutSlash (s.takeWhile (· != '>'))

/-- The attributes that are read of a tag. A greater-than sign in a value is taken for the end of the
tag, and the value itself for further attributes. -/
def readable : List Written → List Attribute
  | [] => []
  | a :: as => if '>' ∈ a.value then attributes (upToEnd a.value) else a.meaning :: readable as

theorem withoutSlash_append {first s : List Char}
    (kept : s ≠ [] ∨ first.getLast? ≠ some '/') :
    withoutSlash (first ++ s) = first ++ withoutSlash s := by
  by_cases nonempty : s = []
  · have other := kept.resolve_left (not_not_intro nonempty)
    rw [nonempty, List.append_nil, withoutSlash, if_neg (by simpa using other)]
    exact (List.append_nil first).symm
  · rw [withoutSlash, withoutSlash, List.getLast?_append, List.getLast?_eq_some_getLast nonempty,
      Option.some_or, List.dropLast_append_of_ne_nil nonempty]
    split <;> rfl

theorem takeWhile_append_of_not_mem {first : List Char} (inside : '>' ∉ first) (s : List Char) :
    (first ++ s).takeWhile (· != '>') = first ++ s.takeWhile (· != '>') :=
  List.takeWhile_append_of_pos fun _ member => bne_iff_ne.mpr fun same => inside (same ▸ member)

theorem upToEnd_append {first : List Char} (inside : '>' ∉ first) {s : List Char}
    (kept : s.takeWhile (· != '>') ≠ [] ∨ first.getLast? ≠ some '/') :
    upToEnd (first ++ s) = first ++ upToEnd s := by
  rw [upToEnd, takeWhile_append_of_not_mem inside, withoutSlash_append kept, upToEnd]

/-- Only what stands before the first greater-than sign counts. -/
theorem upToEnd_append_of_mem {first : List Char} (cut : '>' ∈ first) (s : List Char) :
    upToEnd (first ++ s) = upToEnd first := by
  rw [upToEnd, List.takeWhile_append, if_neg, upToEnd]
  intro whole
  have same := (List.takeWhile_sublist (· != '>')).eq_of_length whole
  exact absurd (List.takeWhile_eq_self_iff.mp same _ cut) (by decide)

theorem upToEnd_sublist (s : List Char) : (upToEnd s).Sublist s := by
  have taken := List.takeWhile_sublist (l := s) (· != '>')
  rw [upToEnd, withoutSlash]
  split
  · exact (List.dropLast_sublist _).trans taken
  · exact taken

theorem IsGap.not_mem {gap : List Char} (blank : IsGap gap) : '>' ∉ gap :=
  fun inside => absurd (blank _ inside).1 (by decide)

namespace Written

variable (a : Written)

theorem name_not_mem : '>' ∉ a.name := fun inside => absurd (a.name_chars _ inside) (by decide)

theorem assignment_not_mem : '>' ∉ a.assignment := by
  obtain ⟨-, -, -, quote, -⟩ := a.quote_other
  simp [assignment, a.beforeEquals_gap.not_mem, a.afterEquals_gap.not_mem, quote.symm]

/-- What stands before a value. -/
def opening : List Char := a.before ++ (a.name ++ a.assignment)

theorem opening_not_mem : '>' ∉ a.opening := by
  simp [opening, a.before_gap.not_mem, a.name_not_mem, a.assignment_not_mem]

theorem getLast?_opening : a.opening.getLast? ≠ some '/' := by
  obtain ⟨-, -, -, -, quote⟩ := a.quote_other
  have ends : a.opening =
      (a.before ++ (a.name ++ (a.beforeEquals ++ '=' :: a.afterEquals))) ++ [a.quote] := by
    simp [opening, assignment]
  rw [ends, List.getLast?_concat]
  exact fun same => quote (Option.some.inj same)

theorem text_append (s : List Char) : a.text ++ s = a.opening ++ (a.value ++ a.quote :: s) := by
  simp only [text, opening, List.append_assoc, List.singleton_append]

theorem text_not_mem (whole : '>' ∉ a.value) : '>' ∉ a.text := by
  obtain ⟨-, -, -, quote, -⟩ := a.quote_other
  have parts := a.text_append []
  rw [List.append_nil] at parts
  simp [parts, a.opening_not_mem, whole, quote.symm]

end Written

/-- Something of a tag always stands before its end. -/
theorem takeWhile_rest_ne_nil (as : List Written) {after : List Char} (after_gap : IsGap after) :
    (Written.all as ++ (after ++ ['/', '>'])).takeWhile (· != '>') ≠ [] := by
  cases as with
  | nil =>
    rw [Written.all, List.flatMap_nil, List.nil_append, takeWhile_append_of_not_mem after_gap.not_mem]
    simp
  | cons a as =>
    rw [Written.all, List.flatMap_cons, List.append_assoc, a.text_append,
      takeWhile_append_of_not_mem a.opening_not_mem]
    simp [Written.opening, a.name_nonempty]

/-- **What is read of a tag.** -/
theorem attributes_upToEnd (as : List Written) {after : List Char} (after_gap : IsGap after) :
    attributes (upToEnd (Written.all as ++ (after ++ ['/', '>']))) = readable as := by
  induction as with
  | nil =>
    have slash : upToEnd (after ++ ['/', '>']) = after ++ upToEnd ['/', '>'] :=
      upToEnd_append after_gap.not_mem (.inl (by decide))
    rw [Written.all, List.flatMap_nil, List.nil_append, slash,
      attributes_append_of_other after_gap.other]
    rfl
  | cons a as ih =>
    rw [readable, Written.all, List.flatMap_cons, List.append_assoc, ← Written.all]
    split
    next cut =>
      -- the tag is taken to end in this value, of which the closing quotation mark is not reached
      have unclosed : a.quote ∉ upToEnd a.value := fun inside =>
        a.value_quoted ((upToEnd_sublist a.value).mem inside)
      rw [a.text_append, upToEnd_append a.opening_not_mem (.inr a.getLast?_opening),
        upToEnd_append_of_mem cut, Written.opening, List.append_assoc, List.append_assoc,
        a.attributes_append_open unclosed]
    next whole =>
      rw [upToEnd_append (a.text_not_mem whole) (.inl (takeWhile_rest_ne_nil as after_gap)),
        a.attributes_append, ih]

theorem dropOpening?_append (opening s : List Char) : dropOpening? opening (opening ++ s) = some s := by
  induction opening with
  | nil => rfl
  | cons c opening ih => rw [List.cons_append, dropOpening?, if_pos (beq_self_eq_true c), ih]

theorem dropOpening?_eq_none {opening s : List Char} (other : ¬opening <+: s) :
    dropOpening? opening s = none := by
  induction opening generalizing s with
  | nil => exact absurd List.nil_prefix other
  | cons c opening ih =>
    cases s with
    | nil => rfl
    | cons d s =>
      rw [dropOpening?]
      split
      next same =>
        rw [beq_iff_eq.mp same, List.cons_prefix_cons] at other
        exact ih fun starts => other ⟨rfl, starts⟩
      next => rfl

/-- Blanks at the start of a tag do not count. -/
theorem attributes_upToEnd_dropWhile (s : List Char) :
    attributes (upToEnd (s.dropWhile isBlank)) = attributes (upToEnd s) := by
  have blank : ∀ c ∈ s.takeWhile isBlank, isBlank c := fun c => List.mem_takeWhile_imp
  have inside : '>' ∉ s.takeWhile isBlank := fun inside => absurd (blank _ inside) (by decide)
  have last : (s.takeWhile isBlank).getLast? ≠ some '/' := fun last =>
    absurd (blank _ (List.mem_of_getLast? last)) (by decide)
  conv_rhs => rw [← List.takeWhile_append_dropWhile (p := isBlank) (l := s)]
  rw [upToEnd_append inside (.inr last),
    attributes_append_of_other fun c member => isAttributeChar_of_isBlank (blank c member)]

namespace Tag

variable (t : Tag)

theorem head?_body : (t.body.head?.map isBlank).getD false := by
  obtain ⟨a, as, first⟩ := List.exists_cons_of_ne_nil t.nonempty
  obtain ⟨c, before, starts⟩ := List.exists_cons_of_ne_nil a.before_nonempty
  have blank := (a.before_gap c (starts ▸ List.mem_cons_self)).1
  rw [body, first, Written.all, List.flatMap_cons, List.append_assoc, a.text_append,
    Written.opening, starts]
  simpa using blank

theorem contains_body : (t.body.dropWhile isBlank).contains '>' := by
  have inside : '>' ∈ t.body := by simp [body]
  rw [← List.takeWhile_append_dropWhile (p := isBlank) (l := t.body)] at inside
  rcases List.mem_append.mp inside with blank | inside
  · exact absurd (List.mem_takeWhile_imp blank) (by decide)
  · exact List.contains_iff_mem.mpr inside

/-- The tag is found. -/
theorem tagBody?_text : tagBody? t.text = some (upToEnd (t.body.dropWhile isBlank)) := by
  have visible : (t.before ++ ("<reference".toList ++ t.body)).dropWhile isBlank =
      "<reference".toList ++ t.body := by
    rw [t.before_gap.dropWhile_append]
    exact List.dropWhile_cons_of_neg (by decide)
  simp only [tagBody?, text, dropOpening?_append, Option.bind_eq_bind, Option.bind_some, visible,
    t.head?_body, t.contains_body, Bool.and_true, if_true]
  rfl

/-- **What is read of the comment that a directive stands in.** -/
theorem ofComment?_text :
    Directive.ofComment? (String.ofList t.text) =
      Directive.ofAttributes? (readable t.attributes) := by
  rw [Directive.ofComment?, String.toList_ofList, t.tagBody?_text, ← attributes_upToEnd t.attributes
    t.after_gap, ← body, ← attributes_upToEnd_dropWhile]
  rfl

end Tag

/-! ## What attributes say -/

/-- The last value of a name. -/
def lastValue? (name : String) (as : List Attribute) : Option String :=
  (as.filter (·.name == name.toList)).getLast?.map fun a => String.ofList a.value

/-- The file that attributes refer to. -/
def path? (as : List Attribute) : Option String := lastValue? "path" as

/-- The types that attributes refer to, if they refer to no file. -/
def types? (as : List Attribute) : Option String :=
  if (path? as).isNone then lastValue? "types" as else none

/-- Attributes that refer neither to a file nor to types mark the standard library if they say that
it is true, in any case of its letters. -/
def MarksLibrary (as : List Attribute) : Prop :=
  path? as = none ∧ types? as = none ∧
    ∃ value, lastValue? "no-default-lib" as = some value ∧
      value.toList.map Char.toLower = "true".toList

theorem lastValue?_eq (name : String) (as : List Attribute) :
    lastValue? name as = (attributeValue? as name).map String.ofList := by
  rw [attributeValue?, lastValue?, ← List.head?_filter, List.filter_reverse,
    List.head?_reverse, Option.map_map]
  rfl

namespace Directive

theorem file?_ofAttributes? (as : List Attribute) : (ofAttributes? as).bind file? = path? as := by
  rw [path?, lastValue?_eq, ofAttributes?]
  cases attributeValue? as "path" with
  | some path => rfl
  | none =>
    dsimp only
    split
    · rfl
    · split
      · split <;> rfl
      · rfl

theorem types?_ofAttributes? (as : List Attribute) :
    (ofAttributes? as).bind Directive.types? = Source.types? as := by
  rw [Source.types?, path?, lastValue?_eq, lastValue?_eq, ofAttributes?]
  cases attributeValue? as "path" with
  | some path => rfl
  | none =>
    dsimp only
    cases attributeValue? as "types" with
    | some name => rfl
    | none =>
      dsimp only
      split
      · split <;> rfl
      · rfl

theorem ofAttributes?_eq_standardLibrary (as : List Attribute) :
    ofAttributes? as = some .standardLibrary ↔ MarksLibrary as := by
  rw [MarksLibrary, Source.types?, path?, lastValue?_eq, lastValue?_eq, lastValue?_eq, ofAttributes?]
  cases attributeValue? as "path" with
  | some path => simp
  | none =>
    dsimp only
    cases attributeValue? as "types" with
    | some name => simp
    | none =>
      dsimp only
      cases attributeValue? as "no-default-lib" with
      | none => simp
      | some value => simp

end Directive

/-! ## Blocks of comments -/

/-- A comment of the block before the first statement. -/
inductive Remark where
  | ordinary (text : String) (other : ¬['/', '/', '/'] <+: text.toList)
  | directive (tag : Tag)

namespace Remark

/-- The text of a comment. -/
def text : Remark → String
  | ordinary text _ => text
  | directive tag => String.ofList tag.text

/-- The attributes that are written in a comment. -/
def written : Remark → List Attribute
  | ordinary _ _ => []
  | directive tag => tag.attributes.map Written.meaning

/-- The attributes that are read of a comment. -/
def read : Remark → List Attribute
  | ordinary _ _ => []
  | directive tag => readable tag.attributes

theorem ofComment?_text (r : Remark) :
    Directive.ofComment? r.text = Directive.ofAttributes? r.read := by
  cases r with
  | directive tag => exact tag.ofComment?_text
  | ordinary text other =>
    rw [Remark.text, read, Directive.ofComment?, tagBody?, dropOpening?_eq_none other]
    rfl

/-- All is read that is written, unless a value holds a greater-than sign. -/
theorem read_eq_written (r : Remark) (whole : ∀ a ∈ r.written, '>' ∉ a.value) :
    r.read = r.written := by
  cases r with
  | ordinary text other => rfl
  | directive tag =>
    rw [written] at whole
    rw [read, written]
    generalize tag.attributes = as at whole ⊢
    induction as with
    | nil => rfl
    | cons a as ih =>
      rw [List.map_cons, List.forall_mem_cons] at whole
      have here : '>' ∉ a.value := whole.1
      rw [readable, if_neg here, List.map_cons, ih whole.2]

end Remark

/-- The children of a tree begin with a block of comments, perhaps after the line that names an
interpreter, and no comment follows the block. -/
def Node.OpensWith (root : Node) (block : List Remark) : Prop :=
  ∃ hash comments rest : List Node, root.children = hash ++ (comments ++ rest) ∧
    (∀ n ∈ hash, n.kind = .leaf .hashBang) ∧ (∀ n ∈ comments, n.kind = .leaf .comment) ∧
    comments.map Node.text = block.map Remark.text ∧
    ∀ n ∈ rest.head?, n.kind ≠ .leaf .comment ∧ n.kind ≠ .leaf .hashBang

namespace Node

variable {root : Node} {block : List Remark}

/-- The block is what is looked through for directives. -/
theorem leadingComments_eq (opens : root.OpensWith block) :
    leadingComments root.children = block.map Remark.text := by
  obtain ⟨hash, comments, rest, children, hashes, kinds, texts, ends⟩ := opens
  rw [children, ← texts]
  clear children texts
  have none_after : leadingComments rest = [] := by
    cases rest with
    | nil => rfl
    | cons n rest =>
      obtain ⟨comment, hashBang⟩ := ends n rfl
      rw [leadingComments, if_neg (by simpa using hashBang), if_neg (by simpa using comment)]
  have all_comments : leadingComments (comments ++ rest) = comments.map Node.text := by
    induction comments with
    | nil => exact none_after
    | cons n comments ih =>
      have comment := kinds n List.mem_cons_self
      rw [List.cons_append, leadingComments, comment, ih fun m member =>
        kinds m (List.mem_cons_of_mem n member)]
      rfl
  rw [← all_comments]
  induction hash with
  | nil => rfl
  | cons n hash ih =>
    rw [List.cons_append, leadingComments, hashes n List.mem_cons_self]
    exact ih fun m member => hashes m (List.mem_cons_of_mem n member)

theorem directives_eq (opens : root.OpensWith block) :
    directives root = block.filterMap fun r => Directive.ofAttributes? r.read := by
  rw [directives, leadingComments_eq opens, List.filterMap_map]
  exact congrArg (block.filterMap ·) (funext Remark.ofComment?_text)

/-- What is read of a block of comments, for any values. -/
theorem extract_block (opens : root.OpensWith block) :
    root.extract.fileReferences = (block.map Remark.read).filterMap path? ∧
    root.extract.typeReferences = (block.map Remark.read).filterMap types? ∧
    (root.extract.isLib = true ↔ ∃ r ∈ block, MarksLibrary r.read) := by
  have recorded := directives_eq opens
  refine ⟨?_, ?_, ?_⟩
  · have files : root.extract.fileReferences = [] ++ (directives root).filterMap Directive.file? :=
      rfl
    rw [files, recorded, List.filterMap_filterMap, List.filterMap_map]
    simp only [Directive.file?_ofAttributes?]
    rfl
  · have types : root.extract.typeReferences = [] ++ (directives root).filterMap Directive.types? :=
      rfl
    rw [types, recorded, List.filterMap_filterMap, List.filterMap_map]
    simp only [Directive.types?_ofAttributes?]
    rfl
  · have library : root.extract.isLib = (false || (directives root).contains .standardLibrary) :=
      rfl
    rw [library, recorded, Bool.false_or, List.contains_iff_mem, List.mem_filterMap]
    simp only [Directive.ofAttributes?_eq_standardLibrary]

/-- **Directives are read back exactly**, in the order of the block, if no value holds a greater-than
sign. -/
theorem extract_written (opens : root.OpensWith block)
    (whole : ∀ r ∈ block, ∀ a ∈ r.written, '>' ∉ a.value) :
    root.extract.fileReferences = (block.map Remark.written).filterMap path? ∧
    root.extract.typeReferences = (block.map Remark.written).filterMap types? ∧
    (root.extract.isLib = true ↔ ∃ r ∈ block, MarksLibrary r.written) := by
  have same : ∀ r ∈ block, r.read = r.written := fun r member => r.read_eq_written (whole r member)
  obtain ⟨files, types, library⟩ := extract_block opens
  rw [List.map_congr_left same] at files types
  exact ⟨files, types, library.trans (exists_congr fun r => and_congr_right fun member => by
    rw [same r member])⟩

/-- A tree of comments. -/
def ofRemarks (block : List Remark) : Node :=
  .ofParts .program (block.map fun r => .leaf ⟨.comment, r.text, false⟩)

theorem ofRemarks_opensWith (block : List Remark) : (ofRemarks block).OpensWith block := by
  refine ⟨[], block.map fun r => .leaf ⟨.comment, r.text, false⟩, [], by simp [ofRemarks, ofParts,
    children], nofun, ?_, ?_, nofun⟩
  · simp [leaf, kind]
  · simp [leaf, text]

end Node

/-- An attribute after one blank, in double quotation marks. -/
def Written.plain (name value : String)
    (named : name.toList ≠ [] ∧ name.toList.all isAttributeChar)
    (valued : '"' ∉ value.toList ∧ value.toList.all (isLineEnd · = false)) : Written where
  before := [' ']
  name := name.toList
  beforeEquals := []
  afterEquals := []
  quote := '"'
  value := value.toList
  before_nonempty := by decide
  before_gap := by simp only [IsGap, List.forall_mem_singleton]; decide
  beforeEquals_gap := nofun
  afterEquals_gap := nofun
  name_nonempty := named.1
  name_chars := List.all_eq_true.mp named.2
  isQuote := .inl rfl
  value_quoted := valued.1
  value_line := by simpa using valued.2

/-- A tag with a blank on both sides of its attributes. -/
def Tag.plain (attributes : List Written) (nonempty : attributes ≠ []) : Tag where
  before := [' ']
  attributes
  after := [' ']
  before_gap := by simp only [IsGap, List.forall_mem_singleton]; decide
  after_gap := by simp only [IsGap, List.forall_mem_singleton]; decide
  nonempty

/-- A comment, a directive with a path after types, and one that marks the standard library. -/
def heading : List Remark :=
  [.ordinary "/* header */" (by decide),
    .directive (.plain [.plain "types" "node" (by decide) (by decide),
      .plain "path" "a='b'.d.ts" (by decide) (by decide)] (by decide)),
    .directive (.plain [.plain "no-default-lib" "TRUE" (by decide) (by decide)] (by decide))]

theorem Node.extract_written_heading :
    (Node.ofRemarks heading).extract.fileReferences = ["a='b'.d.ts"] ∧
    (Node.ofRemarks heading).extract.typeReferences = [] ∧
    (Node.ofRemarks heading).extract.isLib = true := by
  obtain ⟨files, types, library⟩ :=
    Node.extract_written (Node.ofRemarks_opensWith heading) (by decide)
  refine ⟨files.trans (by decide), types.trans (by decide), library.mpr ?_⟩
  exact ⟨_, .tail _ (.tail _ (.head _)), by decide, by decide, "TRUE", by decide, by decide⟩

/-- A directive with a greater-than sign in its path. -/
def greater : Remark :=
  .directive (.plain [.plain "path" "a>b.d.ts" (by decide) (by decide)] (by decide))

/-- The tag is taken to end at the greater-than sign, and nothing is read of it. -/
theorem Node.extract_greater :
    greater.text = "/// <reference path=\"a>b.d.ts\" />" ∧
    ([greater].map Remark.written).filterMap path? = ["a>b.d.ts"] ∧
    (Node.ofRemarks [greater]).extract.fileReferences = [] ∧
    (Source.extract (greater.text ++ "\n")).fileReferences = [] := by
  decide +kernel

end DepGraph.Source
