import DepGraph.Resolution.Environment

/-!
# Inquiries

An `Inquiry` is what has to be asked, step by step, to resolve one specifier: it asks for an
address or for a descriptor and goes on with the answer. A call that fails ends the inquiry.

* `Inquiry.script` — the inquiry as work that waits wherever an answer makes it wait.
* `Inquiry.evaluate` — the inquiry with every answer at once: the calls made, and the outcome.
-/

set_option autoImplicit false

namespace DepGraph

/-- Questions to be asked one after the other, ending in a value or a fault. -/
inductive Inquiry (α : Type) where
  | answer (a : α)
  | fault (f : Fault)
  /-- Asks which address a specifier stands for. -/
  | address (specifier : String) (next : String → Inquiry α)
  /-- Asks for the descriptor of the package at an address, on behalf of a specifier. -/
  | descriptor (address specifier : String) (next : Descriptor → Inquiry α)
  /-- Gives a notice. -/
  | note (n : Notice) (next : Inquiry α)

namespace Inquiry

variable {α β : Type}

/-- Goes on with another inquiry once the first has its value. -/
def bind (q : Inquiry α) (k : α → Inquiry β) : Inquiry β :=
  match q with
  | answer a => k a
  | fault f => fault f
  | address specifier next => address specifier fun a => bind (next a) k
  | descriptor a specifier next => descriptor a specifier fun d => bind (next d) k
  | note n next => note n (bind next k)

instance : Monad Inquiry where
  pure := answer
  bind := bind

/-- Asks which address a specifier stands for. -/
def askAddress (specifier : String) : Inquiry String := .address specifier .answer

/-- Asks for the descriptor of the package at an address. -/
def askDescriptor (address specifier : String) : Inquiry Descriptor :=
  .descriptor address specifier .answer

/-- Gives a notice. -/
def tell (n : Notice) : Inquiry Unit := .note n (.answer ())

/-- A value that is there or a fault. -/
def ofExcept : Except Fault α → Inquiry α
  | .ok a => .answer a
  | .error f => .fault f

/-! ## Faults of calls -/

/-- The fault of a specifier whose address cannot be found. -/
def addressFault (specifier origin : String) (cause : Cause) : Fault :=
  .unresolved specifier origin cause.reason cause

/-- The fault of a specifier for whose package no descriptor can be read. -/
def descriptorFault (address specifier origin : String) (cause : Cause) : Fault :=
  .unresolved specifier origin ("metadata lookup for [" ++ address ++ "] failed: " ++ cause.message)
    cause

/-! ## Asking -/

/-- The work of one call: it is logged, waits as the reply says, and goes on with the answer. -/
def callScript {γ : Type} (caller : Caller) (call : Call) (reply : Reply γ) (wrap : Cause → Fault)
    (next : γ → Script Event Fault α) : Script Event Fault α :=
  .emit (.called caller call) <|
    Script.holdAll [.cancelled caller call] reply.gates <|
      match reply.outcome with
      | .returned a => next a
      | .raised cause => .finish (.raised (wrap cause))
      | .cancelled => .finish .cancelled

/-- The inquiry of specifier `occurrence` of a file as work; `stage` calls were made before. -/
def script (env : Environment) (file : FileId) (occurrence : Nat) :
    Nat → Inquiry α → Script Event Fault α
  | _, answer a => .finish (.returned a)
  | _, fault f => .finish (.raised f)
  | stage, address specifier next =>
    let caller : Caller := ⟨file, occurrence, stage⟩
    callScript caller (.address specifier file.name) (env.address caller specifier file.name)
      (addressFault specifier file.name) fun a => script env file occurrence (stage + 1) (next a)
  | stage, descriptor a specifier next =>
    let caller : Caller := ⟨file, occurrence, stage⟩
    callScript caller (.descriptor a) (env.descriptor caller a)
      (descriptorFault a specifier file.name)
      fun d => script env file occurrence (stage + 1) (next d)
  | stage, note n next => .emit (.notice n) (script env file occurrence stage next)

/-- The inquiry with every answer at once: the calls made in order, and the outcome. -/
def evaluate (env : Environment) (file : FileId) (occurrence : Nat) :
    Nat → Inquiry α → List Call × Ending Fault α
  | _, answer a => ([], .returned a)
  | _, fault f => ([], .raised f)
  | stage, address specifier next =>
    let caller : Caller := ⟨file, occurrence, stage⟩
    let (calls, ending) := match (env.address caller specifier file.name).outcome with
      | .returned a => evaluate env file occurrence (stage + 1) (next a)
      | .raised cause => ([], .raised (addressFault specifier file.name cause))
      | .cancelled => ([], .cancelled)
    (.address specifier file.name :: calls, ending)
  | stage, descriptor a specifier next =>
    let caller : Caller := ⟨file, occurrence, stage⟩
    let (calls, ending) := match (env.descriptor caller a).outcome with
      | .returned d => evaluate env file occurrence (stage + 1) (next d)
      | .raised cause => ([], .raised (descriptorFault a specifier file.name cause))
      | .cancelled => ([], .cancelled)
    (.descriptor a :: calls, ending)
  | stage, note _ next => evaluate env file occurrence stage next

end Inquiry

end DepGraph
