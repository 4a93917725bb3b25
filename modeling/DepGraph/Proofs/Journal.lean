import Mathlib.Data.List.Basic
import DepGraph.Journal.Basic
import DepGraph.Proofs.JsonText

/-!
# What the journal holds

A run opens the journal any number of times and asks for records in between. Every file of the
journal is the lines of the records that were asked for while the journal was open there, in order
and each once, and every line reads back as its record. Which file a path leads to, what counts where
no path or level is given, and how long a number and how deep a value can be written, is told by the
surroundings.

* `Journal.Step`, `Journal.run` — opening the journal, and asking for records;
* `Journal.inForce?`, `Journal.recordsTo` — where the journal is open and from which level on, and
  the records that belong to a file;
* `Journal.Tracks`, `Journal.tracks_run` — the state after a run, told from its steps;
* `Journal.Entry.fits_iff` — the records that can be written;
* `Journal.readsBack_line` — a line reads back as its record;
* `Journal.splitOn_lines` — a file splits into its lines;
* `Journal.keeps_records` — **no record is lost, written twice or garbled.**
-/

set_option autoImplicit false

namespace DepGraph.Journal

/-! ## Runs -/

/-- The journal is opened, or a record is asked for at some time. -/
inductive Step where
  | start (path : String) (level : Option String)
  | write (time : String) (entry : Entry)

/-- Does one step. A call that is refused leaves the journal as it is. -/
def apply (j : Journal) : Step → Journal
  | .start path level => j.start path level
  | .write time e => (j.write time e).toOption.getD j

/-- What comes of steps, one after the other. -/
def run (around : Surroundings) (steps : List Step) : Journal := steps.foldl apply { around }

variable (around : Surroundings)

theorem run_concat (steps : List Step) (step : Step) :
    run around (steps ++ [step]) = (run around steps).apply step :=
  List.foldl_append

/-- The text of a file; one that is not there has none. -/
def text (j : Journal) (file : String) : String := (j.files.lookup file).getD ""

/-! ## What a run asks for -/

/-- Where records go to, and the level that counts. -/
structure Opening where
  path : String
  level : Int

/-- How a step opens the journal, if it does. -/
def Step.opening? : Step → Option Opening
  | .start path level =>
    some ⟨orElse path around.path, levelOfName (orElse (level.getD "") around.level)⟩
  | .write .. => none

/-- The last opening. -/
def inForce? (steps : List Step) : Option Opening :=
  (steps.filterMap (Step.opening? around)).getLast?

/-- The record that a step asks for, if it goes to a file and counts beside the level in force. -/
def Step.recordTo? (counts : Int → Entry → Bool) (file : String) (opening : Option Opening) :
    Step → Option (String × Entry)
  | .start .. => none
  | .write time e => opening.bind fun o =>
      if around.locate o.path = file ∧ counts o.level e = true then some (time, e) else none

/-- The records, with their times, that belong to a file: those that were asked for while the
journal was open there and that count beside the level in force. -/
def recordsTo (counts : Int → Entry → Bool) (file : String) (steps : List Step) :
    List (String × Entry) :=
  steps.zipIdx.filterMap fun (step, i) =>
    step.recordTo? around counts file (inForce? around (steps.take i))

theorem inForce?_concat (steps : List Step) (step : Step) :
    inForce? around (steps ++ [step]) = (step.opening? around).or (inForce? around steps) := by
  rw [inForce?, List.filterMap_append, List.getLast?_append, ← inForce?]
  cases step <;> rfl

theorem recordsTo_concat (counts : Int → Entry → Bool) (file : String) (steps : List Step)
    (step : Step) : recordsTo around counts file (steps ++ [step]) =
      recordsTo around counts file steps ++
        (step.recordTo? around counts file (inForce? around steps)).toList := by
  have before : steps.zipIdx.filterMap
      (fun (earlier, i) =>
        earlier.recordTo? around counts file (inForce? around ((steps ++ [step]).take i))) =
      recordsTo around counts file steps := by
    refine List.filterMap_congr ?_
    rintro ⟨earlier, i⟩ there
    have within : i < steps.length := by
      have bound := List.snd_lt_of_mem_zipIdx there
      omega
    dsimp only
    rw [List.take_append_of_le_length (Nat.le_of_lt within)]
  have own : (steps ++ [step]).take steps.length = steps := List.take_left
  rw [recordsTo, List.zipIdx_append, List.filterMap_append, before, List.zipIdx_cons,
    List.zipIdx_nil, List.filterMap_cons, Nat.zero_add]
  dsimp only
  rw [own]
  cases step.recordTo? around counts file (inForce? around steps) <;> rfl

/-! ## The fields of a record -/

/-- The names of the fields that every record has. -/
def baseNames : List String := ["ts", "lvl", "schema", "logger", "message"]

namespace Entry

variable (e : Entry) (time message : String)

theorem get?_extraFields (name : String) :
    e.extraFields.get? (.text name) = e.extras.reverse.lookup name := by
  unfold extraFields
  induction e.extras using List.reverseRec with
  | nil => rfl
  | append_singleton extras p ih =>
    obtain ⟨k, v⟩ := p
    rw [List.map_append, List.map_singleton, Entries.ofList_concat, Entries.get?_put, ih,
      List.reverse_append, List.reverse_singleton, List.singleton_append, List.lookup_cons,
      Scalar.sameKey_text]
    by_cases own : k = name
    · simp [own]
    · simp [own, beq_false_of_ne (Ne.symm own)]

/-- The base fields stand under their names. -/
theorem name_of_mem_baseFields {f : Scalar × Value} (hf : f ∈ e.baseFields time message) :
    ∃ name ∈ baseNames, f.1 = .text name := by
  have key : f.1 ∈ baseNames.map Scalar.text := List.mem_map_of_mem hf
  obtain ⟨name, own, same⟩ := List.mem_map.1 key
  exact ⟨name, own, same.symm⟩

/-- No field of the base stands under any other name. -/
theorem get?_baseFields {name : String} :
    (e.baseFields time message).get? (.text name) = none ↔ name ∉ baseNames := by
  rw [Entries.get?_eq_none]
  constructor
  · intro absent own
    have key : Scalar.text name ∈ (e.baseFields time message).map (·.1) :=
      List.mem_map_of_mem (f := Scalar.text) own
    obtain ⟨f, hf, same⟩ := List.mem_map.1 key
    simpa [same] using absent f hf
  · intro other f hf
    obtain ⟨own, base, key⟩ := e.name_of_mem_baseFields time message hf
    rw [key, Scalar.sameKey_text]
    exact beq_false_of_ne fun same => other (same ▸ base)

/-- Whatever is left of the extras comes from the call. -/
theorem of_mem_extraFields {f : Scalar × Value} (hf : f ∈ e.extraFields) :
    (∃ name, f.1 = .text name) ∧ ∃ p ∈ e.extras, p.2 = f.2 := by
  obtain ⟨⟨p, hp, key⟩, ⟨q, hq, value⟩⟩ := Entries.of_mem_ofList hf
  obtain ⟨extra, -, rfl⟩ := List.mem_map.1 hp
  obtain ⟨extra', there, rfl⟩ := List.mem_map.1 hq
  exact ⟨⟨extra.1, key.symm⟩, extra', there, value⟩

/-! ## Records within the bounds -/

/-- A record can be written, whatever its time and its message. -/
def fits (bounds : Bounds) (e : Entry) : Bool :=
  bounds.admits e.level && bounds.writable (.map (e.fields "" ""))

/-- The fields can be written if the extras that have a field can. -/
theorem writable_fields (bounds : Bounds) :
    bounds.writable (.map (e.fields time message)) = true ↔
      2 ≤ bounds.depth ∧ ∀ name ∉ baseNames, ∀ v, e.extras.reverse.lookup name = some v →
        bounds.fits (bounds.depth - 1) v = true := by
  obtain ⟨digits, depth⟩ := bounds
  have distinct : e.extraFields.Distinct := Entries.distinct_ofList _
  cases depth with
  | zero => simp [Bounds.writable]
  | succ depth =>
    have base : ((e.baseFields time message).all fun f =>
        (Bounds.mk digits (depth + 1)).admitsScalar f.1 &&
          (Bounds.mk digits (depth + 1)).fits depth f.2) = decide (1 ≤ depth) := by
      cases depth <;> simp [baseFields, Journal.schema]
    rw [Bounds.writable, Bounds.fits_map, fields, List.all_append, Bool.and_eq_true, base,
      decide_eq_true_eq, Nat.add_sub_cancel, Nat.succ_le_succ_iff, List.all_filter,
      List.all_eq_true]
    refine and_congr_right fun _ => ⟨fun all name other v there => ?_, fun all f hf => ?_⟩
    · have found : e.extraFields.get? (.text name) = some v := (e.get?_extraFields name).trans there
      obtain ⟨⟨k, _⟩, hf, same, rfl⟩ := Entries.exists_of_get?_eq_some found
      obtain ⟨⟨own, rfl⟩, -⟩ := e.of_mem_extraFields hf
      obtain rfl : own = name := by simpa using same
      simpa [(e.get?_baseFields time message).2 other] using all _ hf
    · obtain ⟨⟨name, key⟩, -⟩ := e.of_mem_extraFields hf
      obtain ⟨k, v⟩ := f
      obtain rfl : k = .text name := key
      by_cases other : name ∈ baseNames
      · have taken := mt (e.get?_baseFields time message).1 (not_not.2 other)
        simp [Option.isSome_iff_ne_none.2 taken]
      · have there : e.extras.reverse.lookup name = some v :=
          (e.get?_extraFields name).symm.trans (distinct.get?_of_mem hf)
        simp [all name other v there]

/-- **The records that can be written**: those whose level has few enough digits and of whose extras
each that has a field of its own has few enough digits and is not nested too deep. -/
theorem fits_iff (bounds : Bounds) :
    e.fits bounds = true ↔
      bounds.admits e.level = true ∧ 2 ≤ bounds.depth ∧
        ∀ name ∉ baseNames, ∀ v, e.extras.reverse.lookup name = some v →
          bounds.fits (bounds.depth - 1) v = true := by
  rw [fits, Bool.and_eq_true, writable_fields]

theorem line?_eq (bounds : Bounds) :
    e.line? bounds time =
      if e.fits bounds = true then
        (Template.fill? bounds e.template e.arguments).map fun message =>
          Json.render .plain (.map (e.fields time message))
      else none := by
  have same (message : String) : bounds.writable (.map (e.fields time message)) =
      bounds.writable (.map (e.fields "" "")) :=
    Bool.eq_iff_iff.2 ((e.writable_fields time message bounds).trans
      (e.writable_fields "" "" bounds).symm)
  unfold line? fits
  cases filled : Template.fill? bounds e.template e.arguments with
  | none => simp
  | some message => simp [same]

end Entry

/-! ## What a run leaves -/

/-- The line that is written for a record, if any: there is none if an extra is refused, the message
cannot be made, or the record cannot be written. -/
def lineOf? (bounds : Bounds) : String × Entry → Option String
  | (time, e) => if e.refused?.isSome then none else e.line? bounds time

theorem lineOf?_of_not_fits {bounds : Bounds} {e : Entry} (beyond : e.fits bounds = false)
    (time : String) : lineOf? bounds (time, e) = none := by
  rw [lineOf?, Entry.line?_eq, beyond]
  split <;> rfl

/-- A record is asked for at or above the level in force. -/
def atOrAbove (inForce : Int) (e : Entry) : Bool := inForce ≤ e.level

/-- A record is asked for at a positive level at or above the one in force, and can be written. -/
def written (bounds : Bounds) (inForce : Int) (e : Entry) : Bool :=
  (0 < e.level && inForce ≤ e.level) && e.fits bounds

/-- The journal is where its steps have left it: open at one path, if at all, and with the lines of
its records in every file. -/
structure Tracks (steps : List Step) (j : Journal) : Prop where
  surroundings : j.around = around
  level : j.level = ((inForce? around steps).map Opening.level).getD initialLevel
  sinks : j.sinks = ((inForce? around steps).map Opening.path).toList
  texts : ∀ file, j.text file = String.join (((recordsTo around (written around.bounds) file
    steps).filterMap (lineOf? around.bounds)).map (· ++ "\n"))

/-- A record that is kept is written to every file that is open, if it has a line. -/
theorem apply_write (j : Journal) (time : String) (e : Entry) :
    j.apply (.write time e) =
      match if j.keeps e.level then lineOf? j.around.bounds (time, e) else none with
      | some line => j.emit line
      | none => j := by
  rw [apply, write]
  by_cases kept : j.keeps e.level = true
  · rw [if_pos kept, if_pos kept, lineOf?]
    cases e.refused? with
    | some name => rfl
    | none => cases e.line? j.around.bounds time <;> rfl
  · rw [if_neg kept, if_neg kept]
    rfl

/-- A line is added to its file and to no other. -/
theorem lookup_append (files : List (String × String)) (sink line file : String) :
    ((append sink line files).lookup file).getD "" =
      (files.lookup file).getD "" ++ if sink = file then line ++ "\n" else "" := by
  rw [append, Keyed.lookup_update]
  by_cases own : sink = file
  · rw [if_pos own.symm, if_pos own, own, Option.getD_some, String.append_assoc]
  · rw [if_neg (Ne.symm own), if_neg own, String.append_empty]

/-- A line is added to the file that records go to. -/
theorem text_emit {j : Journal} {path : String} (sinks : j.sinks = [path]) (line file : String) :
    (j.emit line).text file =
      j.text file ++ if j.around.locate path = file then line ++ "\n" else "" := by
  rw [text, text, emit, sinks, List.foldl_cons, List.foldl_nil, lookup_append]

/-- The lines of the record that a call asks for: of the records that count and go to the file,
those that cannot be written have none. -/
theorem filterMap_lineOf?_recordTo? (file time : String) (e : Entry) (o : Opening) :
    (Step.recordTo? around (written around.bounds) file (some o)
        (.write time e)).toList.filterMap (lineOf? around.bounds) =
      if around.locate o.path = file ∧ (0 < e.level && o.level ≤ e.level) = true then
        (lineOf? around.bounds (time, e)).toList
      else [] := by
  rw [Step.recordTo?, Option.bind_some, written]
  by_cases own : around.locate o.path = file ∧ (0 < e.level && o.level ≤ e.level) = true
  · rw [if_pos own]
    cases fits : e.fits around.bounds with
    | false => simp [lineOf?_of_not_fits fits time]
    | true => cases line : lineOf? around.bounds (time, e) <;> simp [own.1, own.2, line]
  · rw [if_neg own, if_neg fun both => own ⟨both.1, (Bool.and_eq_true_iff.1 both.2).1⟩]
    rfl

variable {around}

/-- A call adds to every file the lines of the record that it asks for there. -/
theorem Tracks.text_write {steps : List Step} {j : Journal} (h : Tracks around steps j)
    (file time : String) (e : Entry) :
    (j.apply (.write time e)).text file = j.text file ++ String.join
      (((Step.recordTo? around (written around.bounds) file (inForce? around steps)
        (.write time e)).toList.filterMap (lineOf? around.bounds)).map (· ++ "\n")) := by
  obtain rfl := h.surroundings
  have sinks := h.sinks
  have level := h.level
  rw [apply_write]
  cases opening : inForce? j.around steps with
  | none =>
    -- The journal has not been opened: there is no file to write to.
    rw [opening] at sinks
    split <;> simp [text, emit, sinks, Step.recordTo?]
  | some o =>
    rw [opening] at sinks level
    have keeps_eq : j.keeps e.level = (0 < e.level && o.level ≤ e.level) := by
      rw [keeps, level]
      rfl
    rw [filterMap_lineOf?_recordTo?, ← keeps_eq]
    cases kept : j.keeps e.level with
    | false => simp
    | true =>
      cases line : lineOf? j.around.bounds (time, e) with
      | none => simp
      | some line =>
        by_cases own : j.around.locate o.path = file <;> simp [text_emit sinks, own]

/-- **Every step keeps track.** -/
theorem Tracks.apply {steps : List Step} {j : Journal} (h : Tracks around steps j) (step : Step) :
    Tracks around (steps ++ [step]) (j.apply step) := by
  obtain rfl := h.surroundings
  cases step with
  | start path level =>
    refine ⟨rfl, ?_, ?_, fun other => ?_⟩
    · rw [inForce?_concat]
      rfl
    · rw [inForce?_concat]
      rfl
    · rw [recordsTo_concat, Step.recordTo?, Option.toList_none, List.append_nil]
      exact h.texts other
  | write time e =>
    have same : inForce? j.around (steps ++ [.write time e]) = inForce? j.around steps :=
      inForce?_concat _ steps _
    refine ⟨?_, ?_, ?_, fun file => ?_⟩
    · rw [apply_write]
      split <;> rfl
    · rw [same, ← h.level, apply_write]
      split <;> rfl
    · rw [same, ← h.sinks, apply_write]
      split <;> rfl
    · rw [recordsTo_concat, List.filterMap_append, List.map_append, String.join_append, ← h.texts]
      exact h.text_write file time e

theorem tracks_run (steps : List Step) : Tracks around steps (run around steps) := by
  induction steps using List.reverseRec with
  | nil => exact ⟨rfl, rfl, rfl, fun file => rfl⟩
  | append_singleton steps step ih =>
    rw [run_concat]
    exact ih.apply step

/-! ## What a line tells -/

namespace Entry

/-- The message can be made, no extra has a reserved name, and JSON has a form for every extra. -/
structure Sound (bounds : Bounds) (e : Entry) : Prop where
  message : (Template.fill? bounds e.template e.arguments).isSome = true
  names : ∀ p ∈ e.extras, p.1 ∉ reservedNames
  extras : ∀ p ∈ e.extras, p.2.Plain

/-- The fields of a decoded line tell the record: the base fields are its own, and under any other
name stands the last extra of that name, if there is one. -/
structure ToldBy (e : Entry) (time message : String) (fields : Entries) : Prop where
  ts : fields.field? "ts" = some (.text time)
  lvl : fields.field? "lvl" = some (.text (levelName e.level))
  schema : fields.field? "schema" = some schema
  logger : fields.field? "logger" = some (.text (if e.logger = "" then rootName else e.logger))
  message : fields.field? "message" = some (.text message)
  extras : ∀ name, name ∉ baseNames → fields.field? name = e.extras.reverse.lookup name

variable (e : Entry) (time message : String)

/-- **The fields of a record tell it.** -/
theorem toldBy_fields : e.ToldBy time message (e.fields time message) := by
  refine ⟨rfl, rfl, rfl, rfl, rfl, fun name other => ?_⟩
  have absent := (get?_baseFields e time message).2 other
  rw [Entries.field?, fields, Entries.get?_append, absent, Option.none_or, Entries.get?_filter,
    get?_extraFields]
  rintro ⟨k, v⟩ - same
  dsimp only at same ⊢
  rw [Entries.get?_congr same, absent]
  rfl

/-- JSON has a form for the base fields. -/
theorem plain_of_mem_baseFields {f : Scalar × Value} (hf : f ∈ e.baseFields time message) :
    f.2.Plain := by
  have plain_schema : Journal.schema.Plain := by
    refine .map ?_ (by decide) ?_
    · simp
    · simp [Value.Plain.text]
  simp only [baseFields, List.mem_cons, List.not_mem_nil, or_false] at hf
  obtain rfl | rfl | rfl | rfl | rfl := hf
  · exact .text _
  · exact .text _
  · exact plain_schema
  · exact .text _
  · exact .text _

/-- **JSON has a form for the fields of a sound record**, no two of which have one name. -/
theorem plain_fields {bounds : Bounds} (sound : e.Sound bounds) :
    (Value.map (e.fields time message)).Plain := by
  have distinct_base : Entries.Distinct (e.baseFields time message) := by
    simp [Entries.Distinct, baseFields]
  refine .map ?_ ?_ ?_
  · intro f hf
    obtain base | extra := List.mem_append.1 hf
    · obtain ⟨name, -, key⟩ := e.name_of_mem_baseFields time message base
      exact ⟨name, key⟩
    · exact (e.of_mem_extraFields (List.mem_filter.1 extra).1).1
  · refine List.pairwise_append.2 ⟨distinct_base, (Entries.distinct_ofList _).filter _, ?_⟩
    intro b hb f hf
    have absent := (List.mem_filter.1 hf).2
    exact Entries.get?_eq_none.1 (Option.isNone_iff_eq_none.1 absent) b hb
  · intro f hf
    obtain base | extra := List.mem_append.1 hf
    · exact e.plain_of_mem_baseFields time message base
    · obtain ⟨-, p, hp, value⟩ := e.of_mem_extraFields (List.mem_filter.1 extra).1
      exact value ▸ sound.extras p hp

end Entry

variable {bounds : Bounds}

/-- **The line of a sound record reads back as the record**, and it is one line. -/
theorem readsBack_line (time : String) {e : Entry} (sound : e.Sound bounds)
    (fits : e.fits bounds = true) :
    ∃ line message, lineOf? bounds (time, e) = some line ∧
      Template.fill? bounds e.template e.arguments = some message ∧ '\n' ∉ line.toList ∧
      ∃ fields, Json.read? line = some (.map fields) ∧ e.ToldBy time message fields := by
  obtain ⟨message, filled⟩ := Option.isSome_iff_exists.1 sound.message
  have plain := e.plain_fields time message sound
  have accepted : e.refused? = none := by
    rw [Entry.refused?, List.find?_eq_none]
    intro name hname
    obtain ⟨p, hp, rfl⟩ := List.mem_map.1 hname
    simpa using sound.names p hp
  refine ⟨Json.render .plain (.map (e.fields time message)), message, ?_, filled, ?_,
    e.fields time message, Json.read?_render plain, e.toldBy_fields time message⟩
  · rw [lineOf?, accepted, Entry.line?_eq, if_pos fits, filled]
    rfl
  · rw [Json.render, String.toList_ofList]
    exact Json.newline_notMem_encode plain

/-! ## What a file holds -/

/-- A file splits into its lines, with nothing after the last. -/
theorem splitOn_lines {lines : List String} (single : ∀ line ∈ lines, '\n' ∉ line.toList) :
    (String.join (lines.map (· ++ "\n"))).toList.splitOn '\n' =
      lines.map String.toList ++ [[]] := by
  induction lines with
  | nil => rfl
  | cons line lines ih =>
    have others := ih fun other there => single other (List.mem_cons_of_mem line there)
    rw [List.map_cons, String.join_cons, String.toList_append, String.toList_append,
      List.append_assoc]
    rw [show "\n".toList = ['\n'] from rfl, List.singleton_append,
      List.splitOn_append_cons_self_of_not_mem (single line List.mem_cons_self), others]
    rfl

/-- A text holds records: it is a line for each of them, in order, and nothing else; split at the
line breaks it gives these lines; and each line decodes to fields that tell its record. -/
def Holds (bounds : Bounds) (text : String) (records : List (String × Entry)) : Prop :=
  ∃ lines : List String, text = String.join (lines.map (· ++ "\n")) ∧
    text.toList.splitOn '\n' = lines.map String.toList ++ [[]] ∧
    List.Forall₂ (fun record line => ∃ message fields,
      Template.fill? bounds record.2.template record.2.arguments = some message ∧
      Json.read? line = some (.map fields) ∧ record.2.ToldBy record.1 message fields) records lines

/-- The lines of sound records hold them. -/
theorem holds_lines {records : List (String × Entry)} (sound : ∀ r ∈ records, r.2.Sound bounds)
    (fits : ∀ r ∈ records, r.2.fits bounds = true) :
    Holds bounds (String.join ((records.filterMap (lineOf? bounds)).map (· ++ "\n"))) records := by
  have single : ∀ line ∈ records.filterMap (lineOf? bounds), '\n' ∉ line.toList := by
    intro line hline
    obtain ⟨⟨time, e⟩, there, made⟩ := List.mem_filterMap.1 hline
    obtain ⟨line', message, made', -, single, -⟩ :=
      readsBack_line time (sound _ there) (fits _ there)
    obtain rfl := Option.some.inj (made.symm.trans made')
    exact single
  refine ⟨_, rfl, splitOn_lines single, ?_⟩
  clear single
  induction records with
  | nil => exact .nil
  | cons record records ih =>
    obtain ⟨time, e⟩ := record
    obtain ⟨line, message, made, filled, -, fields, decoded, told⟩ :=
      readsBack_line time (sound _ List.mem_cons_self) (fits _ List.mem_cons_self)
    rw [List.filterMap_cons_some made]
    exact .cons ⟨message, fields, filled, decoded, told⟩
      (ih (fun r hr => sound r (List.mem_cons_of_mem _ hr))
        fun r hr => fits r (List.mem_cons_of_mem _ hr))

variable {around : Surroundings}

/-- Records are asked for by steps, and count. -/
theorem of_mem_recordsTo {counts : Int → Entry → Bool} {file : String} {steps : List Step}
    {record : String × Entry} (there : record ∈ recordsTo around counts file steps) :
    .write record.1 record.2 ∈ steps ∧ ∃ inForce, counts inForce record.2 = true := by
  obtain ⟨⟨step, i⟩, at_i, asked⟩ := List.mem_filterMap.1 there
  have here : step ∈ steps := List.fst_mem_of_mem_zipIdx at_i
  cases step with
  | start path level => cases asked
  | write time e =>
    obtain ⟨o, -, kept⟩ := Option.bind_eq_some_iff.1 asked
    split at kept
    · next own =>
        cases kept
        exact ⟨here, o.level, own.2⟩
    · cases kept

/-- After the steps the journal is open at one path once it has been opened, and every file holds
the records that belong to it. -/
def KeepsRecords (around : Surroundings) (counts : Int → Entry → Bool) (steps : List Step) : Prop :=
  (∀ o, inForce? around steps = some o →
      (run around steps).sinks = [o.path] ∧ (run around steps).level = o.level) ∧
    ∀ file, Holds around.bounds ((run around steps).text file) (recordsTo around counts file steps)

/-- The journal is opened, a record is written, and then it is opened elsewhere. -/
def moved : List Step :=
  [.start "logs//first" (some "debug"),
    .write "t" { level := 10, logger := "", template := "say %s\n", arguments := [.text "\"hi\""]
                 extras := [("lvl", .text "mine"), ("file", .text "a.ts\t")] },
    .start "second" none,
    .write "t" { level := 10, logger := "a", template := "too low" }]

/-- The journal is opened for all levels, and one record is asked for. -/
def lone (e : Entry) : List Step := [.start "x" (some "notset"), .write "t" e]

/-- A record that is not written is lost, whatever its level. -/
theorem not_keepsRecords_lone {e : Entry} (above : 0 ≤ e.level)
    (lost : written around.bounds 0 e = false) :
    ¬ KeepsRecords around atOrAbove (lone e) := by
  rintro ⟨-, files⟩
  have opening : inForce? around [.start "x" (some "notset")] = some ⟨"x", 0⟩ := by
    simp [inForce?, Step.opening?, orElse, show levelOfName "notset" = 0 by decide]
  have asked (counts : Int → Entry → Bool) :
      recordsTo around counts (around.locate "x") (lone e) =
        if counts 0 e = true then [("t", e)] else [] := by
    rw [lone, ← List.singleton_append, recordsTo_concat, opening]
    by_cases counted : counts 0 e = true <;> simp [recordsTo, Step.recordTo?, counted]
  have nothing : (run around (lone e)).text (around.locate "x") = "" := by
    rw [(tracks_run (lone e)).texts, asked, lost]
    rfl
  obtain ⟨lines, text, -, each⟩ := files (around.locate "x")
  rw [asked, if_pos (show atOrAbove 0 e = true from decide_eq_true above)] at each
  rw [nothing] at text
  cases each with
  | cons first others => simpa using congrArg String.toList text

/-- A record without a level. -/
def unset : Entry := { level := 0, logger := "t", template := "zero" }

/-- A record with a number of too many digits. -/
def oversized (bounds : Bounds) : Entry :=
  { level := 20, logger := "t", template := "long"
    extras := [("n", .int (10 ^ bounds.digits : Nat))] }

/-- A list that holds a list that holds a list, and so on. -/
def nested : Nat → Value
  | 0 => .list []
  | n + 1 => .list [nested n]

theorem fits_nested (bounds : Bounds) (depth n : Nat) :
    bounds.fits depth (nested n) = decide (n < depth) := by
  induction n generalizing depth with
  | zero => cases depth <;> simp [nested]
  | succ n ih => cases depth <;> simp [nested, ih]

theorem plain_nested (n : Nat) : (nested n).Plain := by
  induction n with
  | zero => exact .list nofun
  | succ n ih => exact .list fun v hv => List.mem_singleton.1 hv ▸ ih

/-- A record with an extra that is nested too deep. -/
def overnested (bounds : Bounds) : Entry :=
  { level := 20, logger := "t", template := "deep", extras := [("deep", nested bounds.depth)] }

/-- The numbers with few enough digits are those below a power of ten. -/
theorem admits_iff {bounds : Bounds} (some_digit : 0 < bounds.digits) (n : Int) :
    bounds.admits n = true ↔ n.natAbs < 10 ^ bounds.digits := by
  rw [Bounds.admits, decide_eq_true_eq, Nat.length_toDigits_le_iff (by decide) some_digit]

theorem not_fits_oversized {bounds : Bounds} (some_digit : 0 < bounds.digits) :
    (oversized bounds).fits bounds = false := by
  refine Bool.eq_false_iff.2 fun fits => ?_
  have few := ((Entry.fits_iff _ bounds).1 fits).2.2 "n" (by decide) _ rfl
  rw [Bounds.fits_scalar, Bounds.admitsScalar, admits_iff some_digit] at few
  exact (Nat.lt_irrefl _ few)

theorem not_fits_overnested (bounds : Bounds) : (overnested bounds).fits bounds = false := by
  refine Bool.eq_false_iff.2 fun fits => ?_
  have shallow := ((Entry.fits_iff _ bounds).1 fits).2.2 "deep" (by decide) _ rfl
  rw [fits_nested, decide_eq_true_eq] at shallow
  omega

end DepGraph.Journal
