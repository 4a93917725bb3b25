import DepGraph.Proofs.Moves
import DepGraph.Proofs.Script
import DepGraph.Proofs.Tally

/-!
# The work on an inquiry

* `Inquiry.script_logs` — an inquiry logs calls of its own file and place, one stage after the
  other, and notices.
* `Inquiry.script_ending` — it ends as the evaluation with every answer at once, whatever the gates.
* `Answers` — answers that depend on nothing but the arguments of a call, and
  `Answers.evaluate` — an inquiry with these answers at once.
* `Inquiry.script_failure` — an inquiry fails if and only if a call that it makes fails, or it comes
  to a fault of its own, and the failure tells of which.
-/

set_option autoImplicit false

namespace DepGraph

/-- Whether an event is a call for occurrence `i` of a file, or the end of one. -/
def Event.isBy (id : FileId) (i : Nat) : Event → Bool
  | .called caller _ => caller.file = id ∧ caller.occurrence = i
  | .cancelled caller _ => caller.file = id ∧ caller.occurrence = i
  | _ => false

/-- The event concerns no occurrence of a file but the given one. -/
def Event.OwnBy (id : FileId) (i : Nat) (e : Event) : Prop := ∀ k, e.isBy id k = true → k = i

theorem Event.isOf_of_isBy {id : FileId} {i : Nat} {e : Event} (h : e.isBy id i = true) :
    e.isOf id = true := by
  cases e <;> simp_all [isBy, isOf]

/-- The calls of an occurrence are among those of the file. -/
theorem Event.filter_isBy (id : FileId) (i : Nat) (events : List Event) :
    (events.filter (Event.isOf id)).filter (Event.isBy id i) = events.filter (Event.isBy id i) := by
  rw [List.filter_filter]
  refine List.filter_congr fun e _ => ?_
  by_cases h : e.isBy id i = true
  · simp [h, isOf_of_isBy h]
  · simp [h]

theorem Event.filter_ownBy {id : FileId} {i k : Nat} {events : List Event}
    (h : ∀ e ∈ events, e.OwnBy id i) (hne : k ≠ i) : events.filter (Event.isBy id k) = [] :=
  List.filter_eq_nil_iff.mpr fun e he hk => hne (h e he k hk)

/-- How a call fails, if it does. -/
def Environment.failureOf (env : Environment) (caller : Caller) :
    Call → Option (Ending Cause Empty)
  | .address specifier origin => (env.address caller specifier origin).outcome.failure?
  | .descriptor address => (env.descriptor caller address).outcome.failure?
  | .source _ => none

namespace Inquiry

variable {α β : Type} (env : Environment) (id : FileId) (occurrence : Nat)

/-! ## What the work logs -/

/-- The work on an inquiry logs notices, and calls of its own file and place. -/
theorem script_logs {p : Event → Prop} (hnotice : ∀ n, p (.notice n))
    (hcalled : ∀ stage call, p (.called ⟨id, occurrence, stage⟩ call))
    (hcancelled : ∀ stage call, p (.cancelled ⟨id, occurrence, stage⟩ call)) (stage : Nat)
    (q : Inquiry α) : (q.script env id occurrence stage).Logs p := by
  induction q generalizing stage with
  | answer a => exact trivial
  | fault f => exact trivial
  | address specifier next ih =>
    refine ⟨hcalled _ _, Script.logs_holdAll (by simpa using hcancelled _ _) ?_⟩
    split
    · exact ih _ _
    · exact trivial
    · exact trivial
  | descriptor a specifier next ih =>
    refine ⟨hcalled _ _, Script.logs_holdAll (by simpa using hcancelled _ _) ?_⟩
    split
    · exact ih _ _
    · exact trivial
    · exact trivial
  | note n next ih => exact ⟨hnotice n, ih _⟩

theorem script_own (stage : Nat) (q : Inquiry α) :
    (q.script env id occurrence stage).Logs (Event.Own id) := by
  refine q.script_logs env id occurrence (fun n => (Event.foreign_notice n).own id) ?_ ?_ stage
  · intro stage call other ho
    simpa [Event.isOf, eq_comm] using ho
  · intro stage call other ho
    simpa [Event.isOf, eq_comm] using ho

theorem script_ownBy (stage : Nat) (q : Inquiry α) :
    (q.script env id occurrence stage).Logs (Event.OwnBy id occurrence) := by
  refine q.script_logs env id occurrence (fun n k hk => by cases hk) ?_ ?_ stage
  · intro stage call k hk
    simpa [Event.isBy, eq_comm] using hk
  · intro stage call k hk
    simpa [Event.isBy, eq_comm] using hk

/-! ## Endings -/

@[simp] theorem ending_callScript {γ : Type} (caller : Caller) (call : Call) (reply : Reply γ)
    (wrap : Cause → Fault) (next : γ → Script Event Fault α) :
    (callScript caller call reply wrap next).ending =
      match reply.outcome with
      | .returned a => (next a).ending
      | .raised cause => .raised (wrap cause)
      | .cancelled => .cancelled := by
  simp only [callScript, Script.ending, Script.ending_holdAll]
  cases reply.outcome <;> rfl

/-- **The work on an inquiry ends as the inquiry with every answer at once**, whatever gates the
answers wait for. -/
theorem script_ending (stage : Nat) (q : Inquiry α) :
    (q.script env id occurrence stage).ending = (q.evaluate env id occurrence stage).2 := by
  induction q generalizing stage with
  | answer a => rfl
  | fault f => rfl
  | address specifier next ih =>
    simp only [script, evaluate, ending_callScript]
    cases (env.address ⟨id, occurrence, stage⟩ specifier id.name).outcome with
    | returned a => exact ih a _
    | raised cause => rfl
    | cancelled => rfl
  | descriptor a specifier next ih =>
    simp only [script, evaluate, ending_callScript]
    cases (env.descriptor ⟨id, occurrence, stage⟩ a).outcome with
    | returned a => exact ih a _
    | raised cause => rfl
    | cancelled => rfl
  | note n next ih => exact ih _

/-! ## Failures -/

@[simp] theorem events_callScript {γ : Type} (caller : Caller) (call : Call) (reply : Reply γ)
    (wrap : Cause → Fault) (next : γ → Script Event Fault α) :
    (callScript caller call reply wrap next).events =
      .called caller call :: match reply.outcome with
        | .returned a => (next a).events
        | .raised _ => []
        | .cancelled => [] := by
  simp only [callScript, Script.events, Script.events_holdAll]
  cases reply.outcome <;> rfl

/-- An inquiry that is left alone cancels no call. -/
theorem cancelled_notMem_script (stage : Nat) (q : Inquiry α) (caller : Caller) (call : Call) :
    .cancelled caller call ∉ (q.script env id occurrence stage).events := by
  induction q generalizing stage with
  | answer a => simp [script, Script.events]
  | fault f => simp [script, Script.events]
  | address specifier next ih =>
    simp only [script, events_callScript, List.mem_cons, reduceCtorEq, false_or]
    split
    · exact ih _ _
    · simp
    · simp
  | descriptor a specifier next ih =>
    simp only [script, events_callScript, List.mem_cons, reduceCtorEq, false_or]
    split
    · exact ih _ _
    · simp
    · simp
  | note n next ih =>
    simp only [script, Script.events, List.mem_cons, reduceCtorEq, false_or]
    exact ih _

/-- **A call that fails makes its inquiry fail.** -/
theorem failure_of_called {stage : Nat} {q : Inquiry α} {caller : Caller} {call : Call}
    {failure : Ending Cause Empty}
    (h : .called caller call ∈ (q.script env id occurrence stage).events)
    (hf : env.failureOf caller call = some failure) :
    (q.script env id occurrence stage).ending.failure? ≠ none := by
  induction q generalizing stage with
  | answer a => simp [script, Script.events] at h
  | fault f => simp [script, Script.events] at h
  | address specifier next ih =>
    simp only [script, events_callScript, List.mem_cons] at h
    simp only [script, ending_callScript]
    rcases h with h | h
    · cases h
      simp only [Environment.failureOf] at hf
      cases hr : (env.address ⟨id, occurrence, stage⟩ specifier id.name).outcome <;> simp_all
    · cases hr : (env.address ⟨id, occurrence, stage⟩ specifier id.name).outcome with
      | returned a =>
        rw [hr] at h
        exact ih a h
      | raised cause => simp [hr] at h
      | cancelled => simp [hr] at h
  | descriptor a specifier next ih =>
    simp only [script, events_callScript, List.mem_cons] at h
    simp only [script, ending_callScript]
    rcases h with h | h
    · cases h
      simp only [Environment.failureOf] at hf
      cases hr : (env.descriptor ⟨id, occurrence, stage⟩ a).outcome <;> simp_all
    · cases hr : (env.descriptor ⟨id, occurrence, stage⟩ a).outcome with
      | returned d =>
        rw [hr] at h
        exact ih d h
      | raised cause => simp [hr] at h
      | cancelled => simp [hr] at h
  | note n next ih =>
    simp only [script, Script.events, List.mem_cons, reduceCtorEq, false_or] at h
    exact ih h

/-- The fault that an inquiry comes to by itself, if all its calls are answered. -/
def objection : Nat → Inquiry α → Option Fault
  | _, answer _ => none
  | _, fault f => some f
  | stage, address specifier next =>
    match (env.address ⟨id, occurrence, stage⟩ specifier id.name).outcome with
    | .returned a => objection (stage + 1) (next a)
    | _ => none
  | stage, descriptor a _ next =>
    match (env.descriptor ⟨id, occurrence, stage⟩ a).outcome with
    | .returned d => objection (stage + 1) (next d)
    | _ => none
  | stage, note _ next => objection stage next

/-- The specifier on whose behalf an inquiry asks for descriptors is always the same. -/
def OnBehalfOf (text : String) : Inquiry α → Prop
  | answer _ => True
  | fault _ => True
  | address _ next => ∀ a, (next a).OnBehalfOf text
  | descriptor _ specifier next => specifier = text ∧ ∀ d, (next d).OnBehalfOf text
  | note _ next => next.OnBehalfOf text

/-- How the failure of a call becomes that of an inquiry. -/
def wrapFailure (wrap : Cause → Fault) : Ending Cause Empty → Ending Fault Empty
  | .raised cause => .raised (wrap cause)
  | _ => .cancelled

/-- A call failed with `cause`, which became the given failure. -/
inductive Wraps (file text : String) : Call → Ending Cause Empty → Ending Fault Empty → Prop
  | address (specifier : String) (cause : Ending Cause Empty) :
    Wraps file text (.address specifier file) cause
      (wrapFailure (addressFault specifier file) cause)
  | descriptor (a : String) (cause : Ending Cause Empty) :
    Wraps file text (.descriptor a) cause (wrapFailure (descriptorFault a text file) cause)

/-- **An inquiry that fails** has made a call that failed, or has come to a fault by itself. -/
theorem script_failure {stage : Nat} {q : Inquiry α} {text : String} (hq : q.OnBehalfOf text)
    {failure : Ending Fault Empty}
    (h : (q.script env id occurrence stage).ending.failure? = some failure) :
    (∃ stage' call cause,
      .called ⟨id, occurrence, stage'⟩ call ∈ (q.script env id occurrence stage).events ∧
      env.failureOf ⟨id, occurrence, stage'⟩ call = some cause ∧
      Wraps id.name text call cause failure) ∨
    ∃ f, q.objection env id occurrence stage = some f ∧ failure = .raised f := by
  induction q generalizing stage with
  | answer a => cases h
  | fault f =>
    cases h
    exact .inr ⟨f, rfl, rfl⟩
  | address specifier next ih =>
    simp only [script, ending_callScript] at h
    simp only [script, events_callScript, List.mem_cons, objection]
    cases hr : (env.address ⟨id, occurrence, stage⟩ specifier id.name).outcome with
    | returned a =>
      rw [hr] at h
      rcases ih a (hq a) h with ⟨caller, call, cause, hmem, hrest⟩ | hobjection
      · exact .inl ⟨caller, call, cause, .inr hmem, hrest⟩
      · exact .inr hobjection
    | raised cause =>
      rw [hr] at h
      cases h
      exact .inl ⟨_, _, .raised cause, .inl rfl, by simp [Environment.failureOf, hr],
        .address specifier (.raised cause)⟩
    | cancelled =>
      rw [hr] at h
      cases h
      exact .inl ⟨_, _, .cancelled, .inl rfl, by simp [Environment.failureOf, hr],
        .address specifier .cancelled⟩
  | descriptor a specifier next ih =>
    obtain ⟨rfl, hnext⟩ := hq
    simp only [script, ending_callScript] at h
    simp only [script, events_callScript, List.mem_cons, objection]
    cases hr : (env.descriptor ⟨id, occurrence, stage⟩ a).outcome with
    | returned d =>
      rw [hr] at h
      rcases ih d (hnext d) h with ⟨caller, call, cause, hmem, hrest⟩ | hobjection
      · exact .inl ⟨caller, call, cause, .inr hmem, hrest⟩
      · exact .inr hobjection
    | raised cause =>
      rw [hr] at h
      cases h
      exact .inl ⟨_, _, .raised cause, .inl rfl, by simp [Environment.failureOf, hr],
        .descriptor a (.raised cause)⟩
    | cancelled =>
      rw [hr] at h
      cases h
      exact .inl ⟨_, _, .cancelled, .inl rfl, by simp [Environment.failureOf, hr],
        .descriptor a .cancelled⟩
  | note n next ih =>
    rcases ih hq h with ⟨caller, call, cause, hmem, hrest⟩ | hobjection
    · exact .inl ⟨caller, call, cause, List.mem_cons_of_mem _ hmem, hrest⟩
    · exact .inr hobjection

/-- An inquiry that comes to a fault by itself fails with it. -/
theorem ending_of_objection {stage : Nat} {q : Inquiry α} {f : Fault}
    (h : q.objection env id occurrence stage = some f) :
    (q.script env id occurrence stage).ending = .raised f := by
  induction q generalizing stage with
  | answer a => cases h
  | fault f => cases h; rfl
  | address specifier next ih =>
    simp only [objection] at h
    simp only [script, ending_callScript]
    split at h
    · rename_i a hr
      simp only [hr]
      exact ih a h
    · cases h
  | descriptor a specifier next ih =>
    simp only [objection] at h
    simp only [script, ending_callScript]
    split at h
    · rename_i d hr
      simp only [hr]
      exact ih d h
    · cases h
  | note n next ih => exact ih h

end Inquiry

/-! ## Answers that depend on the arguments alone -/

/-- How the calls of a resolver are answered, by their arguments. -/
structure Answers where
  address : (specifier origin : String) → Ending Cause String
  descriptor : (address : String) → Ending Cause Descriptor

/-- Whoever calls, whenever, and however long it takes, these are the answers. -/
structure Environment.Gives (env : Environment) (answers : Answers) : Prop where
  address : ∀ caller specifier origin,
    (env.address caller specifier origin).outcome = answers.address specifier origin
  descriptor : ∀ caller a, (env.descriptor caller a).outcome = answers.descriptor a

/-- Every question for an address has the same reply, and every text the same specifiers. -/
def Environment.constant (found : Extraction) (reply : Reply String) : Environment where
  address := fun _ _ _ => reply
  descriptor := fun _ _ => { outcome := .returned ⟨[]⟩ }
  source := fun _ _ => reply
  extract := fun _ => .ok (found, [])

theorem Environment.constant_gives (found : Extraction) (reply : Reply String) :
    (constant found reply).Gives ⟨fun _ _ => reply.outcome, fun _ => .returned ⟨[]⟩⟩ :=
  ⟨fun _ _ _ => rfl, fun _ _ => rfl⟩

/-- Every file has one reference, the address of which is given once a gate is open. -/
def World.oneReference : Nat → Environment := fun _ =>
  .constant { fileReferences := ["b"] } { gates := ["g"], outcome := .returned "b.ts" }

/-- How an inquiry of a file ends when every call is answered at once. -/
def Answers.evaluate {α : Type} (answers : Answers) (file : String) : Inquiry α → Ending Fault α
  | .answer a => .returned a
  | .fault f => .raised f
  | .address specifier next =>
    match answers.address specifier file with
    | .returned a => evaluate answers file (next a)
    | .raised cause => .raised (Inquiry.addressFault specifier file cause)
    | .cancelled => .cancelled
  | .descriptor a specifier next =>
    match answers.descriptor a with
    | .returned d => evaluate answers file (next d)
    | .raised cause => .raised (Inquiry.descriptorFault a specifier file cause)
    | .cancelled => .cancelled
  | .note _ next => evaluate answers file next

/-- Answers that depend on the arguments alone make the place of a call irrelevant. -/
theorem Environment.Gives.evaluate {α : Type} {env : Environment} {answers : Answers}
    (h : env.Gives answers) (id : FileId) (occurrence stage : Nat) (q : Inquiry α) :
    (q.evaluate env id occurrence stage).2 = answers.evaluate id.name q := by
  induction q generalizing stage with
  | answer a => rfl
  | fault f => rfl
  | address specifier next ih =>
    simp only [Inquiry.evaluate, Answers.evaluate, h.address]
    cases answers.address specifier id.name with
    | returned a => exact ih a _
    | raised cause => rfl
    | cancelled => rfl
  | descriptor a specifier next ih =>
    simp only [Inquiry.evaluate, Answers.evaluate, h.descriptor]
    cases answers.descriptor a with
    | returned d => exact ih d _
    | raised cause => rfl
    | cancelled => rfl
  | note n next ih => exact ih _

end DepGraph
