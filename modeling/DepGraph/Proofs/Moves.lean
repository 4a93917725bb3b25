import Mathlib.Data.List.Basic
import Mathlib.Logic.Relation
import DepGraph.Proofs.Frames
import DepGraph.Proofs.Selection

/-!
# What one action does to a world

An action of a run is made of few kinds of change, the moves: a file is added, asked for, changed
in place, a waiter gives up, a gate opens, a declaration is registered, or something happens aside,
which touches neither the store nor the jobs and calls of any file.

* `Event.isOf`, `Job.of?` — the events and the jobs of one file.
* `Script.Logs`, `Join.Logs` — everything that work may still log has a given property.
* `Walk.Proper` — a walk logs nothing that concerns a file, and its waiters wait for it.
* `World.Move` — the moves of an action.
* `World.apply_moves`, `World.performWalk_moves` — every action other than a tick is made of moves,
  and so is every job of a walk.
-/

set_option autoImplicit false

namespace DepGraph

/-! ## Events and jobs of one file -/

/-- Whether an event is a call, or the reading of the text, of a file. -/
def Event.isOf (id : FileId) : Event → Bool
  | .called caller _ => caller.file = id
  | .cancelled caller _ => caller.file = id
  | .extracting file _ => file = id
  | _ => false

/-- The event concerns no file. -/
def Event.Foreign (e : Event) : Prop := ∀ id, e.isOf id = false

/-- The event concerns no file but the given one. -/
def Event.Own (id : FileId) (e : Event) : Prop := ∀ other, e.isOf other = true → other = id

/-- The job of a file, if it is one of that file. -/
def Job.of? (id : FileId) : Job → Option FileJob
  | .file other job => if other = id then some job else none
  | .walk .. => none

theorem Job.of?_unwraps (id : FileId) : Loop.Unwraps (Job.of? id) (Job.file id) := by
  intro j k
  cases j with
  | file other job =>
    by_cases h : other = id <;> simp [Job.of?, h]
  | walk k job => simp [Job.of?]

@[simp] theorem Job.of?_file (id : FileId) (job : FileJob) :
    Job.of? id (.file id job) = some job := by
  simp [Job.of?]

@[simp] theorem Job.of?_walk (id : FileId) (k : Nat) (job : WalkJob) :
    Job.of? id (.walk k job) = none := rfl

theorem Job.of?_other {id other : FileId} (h : other ≠ id) (job : FileJob) :
    Job.of? id (.file other job) = none := by
  simp [Job.of?, h]

@[simp] theorem Event.foreign_notice (n : Notice) : (Event.notice n).Foreign := fun _ => rfl

theorem Event.Foreign.own {e : Event} (h : e.Foreign) (id : FileId) : e.Own id := fun other ho => by
  simp [h other] at ho

theorem Event.filter_foreign {events : List Event} (h : ∀ e ∈ events, e.Foreign) (id : FileId) :
    events.filter (Event.isOf id) = [] :=
  List.filter_eq_nil_iff.mpr fun e he => by simp [h e he id]

theorem Event.filter_own {events : List Event} {id other : FileId} (h : ∀ e ∈ events, e.Own id)
    (hne : other ≠ id) : events.filter (Event.isOf other) = [] :=
  List.filter_eq_nil_iff.mpr fun e he ho => hne (h e he other ho)

/-! ## What work may log -/

/-- Everything that a script may log, a cancellation included, satisfies `p`. -/
def Script.Logs {ε φ α : Type} (p : ε → Prop) : Script ε φ α → Prop
  | .finish _ => True
  | .emit e rest => p e ∧ Logs p rest
  | .hold _ farewell rest => (∀ e ∈ farewell, p e) ∧ Logs p rest

/-- Everything that a member of a join may still log satisfies `p`. -/
def Member.Logs {ε φ α : Type} (p : ε → Prop) : Member ε φ α → Prop
  | .active farewell rest => (∀ e ∈ farewell, p e) ∧ rest.Logs p
  | .stopped farewell => ∀ e ∈ farewell, p e
  | .ended _ => True

/-- Everything that the members of a join may still log satisfies `p`. -/
def Join.Logs {ε φ α : Type} (p : ε → Prop) (join : Join ε φ α) : Prop :=
  ∀ m ∈ join.members, m.Logs p

section Logs

variable {ε φ α : Type} {p : ε → Prop}

theorem Script.logs_holdAll {farewell : List ε} {gates : List Gate} {rest : Script ε φ α}
    (hf : ∀ e ∈ farewell, p e) (hr : rest.Logs p) :
    (Script.holdAll farewell gates rest).Logs p := by
  induction gates with
  | nil => exact hr
  | cons gate gates ih => exact ⟨hf, ih⟩

/-- What is logged up to the next closed gate, and what may be logged from there. -/
theorem Script.Logs.advance {s : Script ε φ α} (h : s.Logs p) (isOpen : Gate → Bool) :
    (∀ e ∈ (s.advance isOpen).1, p e) ∧
      ∀ gate farewell rest, (s.advance isOpen).2 = .held gate farewell rest →
        (∀ e ∈ farewell, p e) ∧ rest.Logs p := by
  induction s with
  | finish e => exact ⟨by simp [Script.advance], fun _ _ _ he => by cases he⟩
  | emit e rest ih =>
    obtain ⟨hevents, hheld⟩ := ih h.2
    refine ⟨?_, hheld⟩
    intro e' he'
    rcases List.mem_cons.mp he' with rfl | he'
    · exact h.1
    · exact hevents e' he'
  | hold gate farewell rest ih =>
    unfold Script.advance
    split
    · exact ih h.2
    · refine ⟨by simp, ?_⟩
      intro gate' farewell' rest' he
      cases he
      exact h

theorem Member.Logs.turnOf {m : Member ε φ α} (h : m.Logs p) (isOpen : Gate → Bool) :
    (∀ e ∈ (Join.turnOf isOpen m).1, p e) ∧ (Join.turnOf isOpen m).2.1.Logs p := by
  cases m with
  | active farewell rest =>
    have hadvance := h.2.advance isOpen
    simp only [Join.turnOf]
    generalize rest.advance isOpen = result at hadvance ⊢
    obtain ⟨events, ending | ⟨gate, farewell', rest'⟩⟩ := result
    · exact ⟨hadvance.1, trivial⟩
    · exact ⟨hadvance.1, hadvance.2 _ _ _ rfl⟩
  | stopped farewell => exact ⟨h, trivial⟩
  | ended ending => exact ⟨by simp [Join.turnOf], trivial⟩

theorem Join.Logs.turn {join : Join ε φ α} (h : join.Logs p) (isOpen : Gate → Bool) (i : Nat) :
    (∀ e ∈ (join.turn isOpen i).1, p e) ∧ (join.turn isOpen i).2.1.Logs p := by
  unfold Join.turn
  split
  · exact ⟨by simp, h⟩
  · rename_i m hm
    obtain ⟨hevents, hafter⟩ := (h m (List.mem_of_getElem? hm)).turnOf isOpen
    refine ⟨hevents, ?_⟩
    intro m' hm'
    rcases List.mem_or_eq_of_mem_set hm' with hm' | rfl
    · exact h m' hm'
    · exact hafter

theorem Join.Logs.perform {J : Type} {join : Join ε φ α} (h : join.Logs p) (wrap : JoinJob → J)
    (loop : Loop J) (job : JoinJob) :
    (∀ e ∈ (join.perform wrap loop job).1, p e) ∧ (join.perform wrap loop job).2.2.Logs p := by
  cases job with
  | launch => exact ⟨by simp [Join.perform], h⟩
  | turn i => exact h.turn loop.isOpen i
  | hear i =>
    refine ⟨by simp [Join.perform], ?_⟩
    simp only [Join.perform, Join.hear]
    split <;> exact h
  | wake => exact ⟨by simp [Join.perform], h⟩

theorem Join.Logs.stop {join : Join ε φ α} (h : join.Logs p) : join.stop.Logs p := by
  intro m hm
  obtain ⟨m₀, hm₀, rfl⟩ := List.mem_map.mp hm
  have := h m₀ hm₀
  cases m₀ with
  | active farewell rest => exact this.1
  | stopped farewell => exact this
  | ended ending => exact this

theorem Join.logs_ofScripts {scripts : List (Script ε φ α)} (h : ∀ s ∈ scripts, s.Logs p) :
    (Join.ofScripts scripts).Logs p := by
  intro m hm
  obtain ⟨s, hs, rfl⟩ := List.mem_map.mp hm
  exact ⟨by simp, h s hs⟩

end Logs

/-- The requests of walk `k` log nothing that concerns a file, and each of its waiters waits for it
at its place. -/
structure Walk.Proper (s : Store) (k : Nat) (x : Walk) : Prop where
  fetches : x.fetches.Logs Event.Foreign
  waiters : ∀ {waiters tally}, x.phase = .resolving waiters tally →
    ∀ {place id waiter}, waiters[place]? = some (id, waiter) →
      s.Listens id waiter (some ⟨k, place⟩)

theorem Walk.Proper.grows {s s' : Store} {k : Nat} {x : Walk} (h : x.Proper s k)
    (hs : s.Grows s') : x.Proper s' k :=
  ⟨h.fetches, fun hp _ _ _ hm => hs.listens (h.waiters hp hm)⟩

namespace World

/-! ## Moves -/

/-- Every walk is proper. -/
def ProperWalks (w : World) : Prop :=
  ∀ (k : Nat) (x : Walk), w.walks[k]? = some x → x.Proper w.store k

theorem ProperWalks.grows {w w' : World} (h : w.ProperWalks) (hwalks : w'.walks = w.walks)
    (hs : w.store.Grows w'.store) : w'.ProperWalks :=
  fun k x hx => (h k x (hwalks ▸ hx)).grows hs

/-- Something happens that touches neither the store nor the jobs and calls of any file. -/
structure Aside (w w' : World) : Prop where
  store : w'.store = w.store
  registries : w'.registries = w.registries
  loop : w.loop.Extends w'.loop
  jobs : ∀ {K : Type} (f : Job → Option K), (∀ k job, f (.walk k job) = none) →
    w'.loop.select f = w.loop.select f
  log : ∃ events, w'.log = w.log ++ events ∧ ∀ e ∈ events, e.Foreign
  walks : w.ProperWalks → w'.ProperWalks

/-- Action `a` asks resolver `resolver` for a file: it is such a request, or carries out a job of a
walk that uses this resolver. -/
inductive Asks (w : World) : Action → (resolver : Nat) → (name : String) → Option WalkRef → Prop
  | request (resolver : Nat) (name : String) : Asks w (.resolve resolver name) resolver name none
  | walk {k : Nat} {x : Walk} (place : Nat) (name : String) (h : w.walks[k]? = some x) :
    Asks w .tick x.resolver name (some ⟨k, place⟩)

/-- Action `a` cancels a waiter: it is the waiter itself that gives up, or its walk is cancelled. -/
inductive Cancels (w : World) : Action → FileId → Nat → Prop
  | waiter (id : FileId) (waiter : Nat) : Cancels w (.giveUp id waiter) id waiter
  | walk {k place : Nat} {id : FileId} {waiter : Nat}
    (h : w.store.Listens id waiter (some ⟨k, place⟩)) : Cancels w (.cancelWalk k) id waiter

/-- The changes that action `a` is made of. -/
inductive Move (env : Nat → Environment) (a : Action) : World → World → Prop
  | aside {w w' : World} (h : Aside w w') : Move env a w w'
  | add {w : World} (name text : String) (h : a = .add name text ∨ a = .tick) :
    Move env a w (w.add name text)
  | setText {w : World} {name text : String} (h : a = .setText name text) :
    Move env a w (w.setText name text)
  | register {w : World} {resolver : Nat} {address : String} (h : a = .register resolver address) :
    Move env a w (w.register resolver address)
  | release {w : World} {gate : Gate} (h : a = .release gate) : Move env a w (w.release gate)
  | ask {w : World} {resolver : Nat} {name : String} {listener : Option WalkRef}
    (h : w.Asks a resolver name listener) :
    Move env a w (w.resolve (env resolver) resolver name listener).1
  | askWithoutLoop {w : World} {resolver : Nat} {name : String}
    (h : a = .resolveWithoutLoop resolver name) :
    Move env a w (w.resolveWithoutLoop (env resolver) name none).1
  | giveUp {w : World} {id : FileId} {waiter : Nat} (h : w.Cancels a id waiter) :
    Move env a w (w.giveUp id waiter)

variable {env : Nat → Environment} {a : Action}

theorem Aside.refl (w : World) : Aside w w :=
  ⟨rfl, rfl, .refl _, fun _ _ => rfl, ⟨[], by simp, by simp⟩, id⟩

theorem Aside.trans {w₁ w₂ w₃ : World} (h₁ : Aside w₁ w₂) (h₂ : Aside w₂ w₃) : Aside w₁ w₃ := by
  obtain ⟨events₁, hl₁, hf₁⟩ := h₁.log
  obtain ⟨events₂, hl₂, hf₂⟩ := h₂.log
  refine ⟨h₂.store.trans h₁.store, h₂.registries.trans h₁.registries, h₁.loop.trans h₂.loop,
    fun f hf => (h₂.jobs f hf).trans (h₁.jobs f hf), ⟨events₁ ++ events₂, ?_, ?_⟩,
    h₂.walks ∘ h₁.walks⟩
  · rw [hl₂, hl₁, List.append_assoc]
  · intro e he
    rcases List.mem_append.mp he with he | he
    · exact hf₁ e he
    · exact hf₂ e he

/-- A run of moves. -/
abbrev Moves (env : Nat → Environment) (a : Action) : World → World → Prop :=
  Relation.ReflTransGen (Move env a)

theorem Aside.moves {w w' : World} (h : Aside w w') : Moves env a w w' :=
  Relation.ReflTransGen.single (.aside h)

/-! ## Changes aside -/

theorem aside_record {w : World} {events : List Event} (h : ∀ e ∈ events, e.Foreign) :
    Aside w (w.record events) :=
  ⟨rfl, rfl, .refl _, fun _ _ => rfl, ⟨events, rfl, h⟩, id⟩

theorem aside_note (w : World) (n : Notice) : Aside w (w.note n) :=
  aside_record (by simp)

theorem aside_loop {w : World} {loop : Loop Job} (h : w.loop.Extends loop)
    (hs : ∀ {K : Type} (f : Job → Option K), (∀ k job, f (.walk k job) = none) →
      loop.select f = w.loop.select f) :
    Aside w { w with loop } :=
  ⟨rfl, rfl, h, hs, ⟨[], by simp, by simp⟩, id⟩

theorem aside_postAll_walk (w : World) (k : Nat) (jobs : List WalkJob) :
    Aside w { w with loop := w.loop.postAll (jobs.map (.walk k)) } :=
  aside_loop (w.loop.extends_postAll _) fun f hf => by
    simp [List.filterMap_map, hf]

theorem aside_post_walk (w : World) (k : Nat) (job : WalkJob) : Aside w (w.post (.walk k job)) :=
  aside_postAll_walk w k [job]

theorem aside_modifyWalk (w : World) (k : Nat) (change : Walk → Walk)
    (h : ∀ x, w.walks[k]? = some x → x.Proper w.store k → (change x).Proper w.store k) :
    Aside w (w.modifyWalk k change) := by
  refine ⟨rfl, rfl, .refl _, fun _ _ => rfl, ⟨[], by simp [modifyWalk], by simp⟩, ?_⟩
  intro hw i x hi
  simp only [modifyWalk, List.getElem?_modify] at hi
  cases hxi : w.walks[i]? with
  | none => simp [hxi] at hi
  | some y =>
    rw [hxi] at hi
    by_cases hik : k = i
    · subst hik
      obtain rfl : change y = x := by simpa using hi
      exact h y hxi (hw k y hxi)
    · obtain rfl : y = x := by simpa [hik] using hi
      exact hw i y hxi

theorem aside_endWalk (w : World) (k : Nat) (ending : Ending WalkFault (List String)) :
    Aside w (w.endWalk k ending) :=
  aside_modifyWalk w k _ fun _ _ h => ⟨h.fetches, nofun⟩

theorem aside_walk (w : World) (resolver : Nat) (entries : List String) :
    Aside w (w.walk resolver entries).1 := by
  refine ⟨rfl, rfl, w.loop.extends_postAll _, fun f hf => by simp [walk, post, hf],
    ⟨[], by simp [walk, post], by simp⟩, ?_⟩
  intro hw k x hx
  rcases Nat.lt_or_ge k w.walks.length with hk | hk
  · exact hw k x ((List.getElem?_append_left hk).symm.trans hx)
  · obtain rfl : { resolver, pending := Dependencies.distinct entries } = x :=
      (List.mem_singleton.mp
        (List.mem_of_getElem? ((List.getElem?_append_right hk).symm.trans hx))).symm
    exact ⟨Join.logs_ofScripts (by simp), fun hphase => by cases hphase⟩

/-- A job of the texts that a walk fetches. -/
theorem aside_fetch {w : World} (hw : w.ProperWalks) {k : Nat} {x : Walk}
    (hx : w.walks[k]? = some x) (job : JoinJob) :
    Aside w (w.performFetch k x job) := by
  have hlogs := (hw k x hx).fetches.perform (fun j => Job.walk k (.fetch j)) w.loop job
  refine ((aside_loop (Join.perform_extends _ _ _ _) fun f hf => ?_).trans
    (aside_modifyWalk _ k _ fun _ _ h => ?_)).trans (aside_record hlogs.1)
  · exact Join.perform_select_none (fun j => hf k (.fetch j)) _ _ _
  · exact ⟨hlogs.2, h.waiters⟩

theorem aside_cancelFetches {w : World} {k : Nat} {x : Walk} (hx : w.walks[k]? = some x) :
    Aside w (w.cancelFetches k x).1 := by
  unfold cancelFetches
  split
  · exact .refl w
  · refine (aside_loop (Loop.extends_withdrawAll _ _) fun f hf => ?_).trans
      (aside_modifyWalk _ k _ fun y hy h => ?_)
    · exact Join.abandon_select_none (fun j => hf k (.fetch j)) _ _
    · obtain rfl : x = y := Option.some.inj (hx.symm.trans hy)
      exact ⟨h.fetches.stop, h.waiters⟩

/-! ## The jobs of a walk -/

section Walks

variable {w : World} {k : Nat} {x : Walk}

theorem resolveAll_moves (env : Nat → Environment) (hx : w.walks[k]? = some x) (place : Nat)
    (names : List String) :
    Moves env .tick w (resolveAll (env x.resolver) x.resolver k place w names).1 := by
  induction names generalizing w place with
  | nil => exact .refl
  | cons name rest ih =>
    have hask : Move env .tick w (w.resolve (env x.resolver) x.resolver name (some ⟨k, place⟩)).1 :=
      .ask (.walk place name hx)
    have hwalks := walks_resolve (env x.resolver) w x.resolver name (some ⟨k, place⟩)
    unfold resolveAll
    split
    · rename_i w₁ refusal heq
      rw [heq] at hask
      exact .single hask
    · rename_i w₁ waiter heq
      rw [heq] at hask hwalks
      have hrest := ih (w := w₁) (hwalks ▸ hx) (place + 1)
      split <;> rename_i heq' <;> rw [heq'] at hrest <;> exact .head hask hrest

/-- Who waits for the files of a round listens at the place of its file. -/
theorem resolveAll_listens {env : Environment} {resolver place : Nat} {names : List String}
    {w' : World} {waiters : List (FileId × Nat)}
    (h : resolveAll env resolver k place w names = (w', .ok waiters)) {i : Nat}
    {p : FileId × Nat} (hi : waiters[i]? = some p) :
    w'.store.Listens p.1 p.2 (some ⟨k, place + i⟩) := by
  induction names generalizing w place waiters i with
  | nil =>
    cases h
    simp at hi
  | cons name rest ih =>
    unfold resolveAll at h
    split at h
    · cases h
    · rename_i w₁ waiter heq
      split at h
      · cases h
      · rename_i w₂ others heq'
        cases h
        cases i with
        | zero =>
          obtain rfl : waiter = p := by simpa using hi
          have hgrows := grows_resolveAll env resolver k (place + 1) w₁ rest
          rw [heq'] at hgrows
          exact hgrows.listens (listens_resolve heq)
        | succ i =>
          have hrest := ih heq' (by simpa using hi)
          rwa [Nat.add_right_comm, Nat.add_assoc] at hrest

theorem resolveRound_moves (hx : w.walks[k]? = some x) (y : Walk) (hy : y.resolver = x.resolver) :
    Moves env .tick w (w.resolveRound (env x.resolver) k y) := by
  have hall := resolveAll_moves env hx 0 y.pending
  rw [← hy] at hall ⊢
  refine resolveRound_cases (fun w₁ refusal heq => ?_) fun w₁ waiters heq => ?_ <;> rw [heq] at hall
  · exact hall.trans (aside_endWalk _ _ _).moves
  · refine hall.trans (Aside.trans (aside_modifyWalk w₁ k _ ?_) (aside_postAll_walk _ k _)).moves
    refine fun _ _ h => ⟨h.fetches, ?_⟩
    rintro _ _ ⟨⟩ i _ _ hi
    simpa using resolveAll_listens heq hi

theorem fetchScript_foreign (env : Environment) (id : FetchId) (name : String) :
    (fetchScript env id name).Logs Event.Foreign :=
  ⟨fun _ => rfl, Script.logs_holdAll (by simp [Event.Foreign, Event.isOf]) trivial⟩

theorem startRound_moves (env : Nat → Environment) (hx : w.walks[k]? = some x) (y : Walk)
    (hy : y.resolver = x.resolver) :
    Moves env .tick w (w.startRound (env x.resolver) k y) := by
  refine startRound_cases (fun _ => (aside_endWalk _ _ _).moves)
    (fun _ _ => resolveRound_moves hx y hy) fun _ missing _ _ => ?_
  refine (Aside.trans (aside_loop ?_ fun f hf => ?_)
    (aside_modifyWalk _ k _ fun _ _ _ => ?_)).moves
  · exact w.loop.extends_postAll _
  · exact Join.perform_select_none (fun j => hf k (.fetch j)) w.loop _ .launch
  · refine ⟨Join.logs_ofScripts fun s hs => ?_, nofun⟩
    obtain ⟨i, hi, rfl⟩ := List.mem_mapIdx.mp hs
    exact fetchScript_foreign _ _ _

theorem addRound_moves (hx : w.walks[k]? = some x) (missing texts : List String) :
    Moves env .tick w (w.addRound (env x.resolver) k x missing texts) := by
  unfold addRound
  generalize missing.zip texts = files
  induction files generalizing w with
  | nil => exact resolveRound_moves hx x rfl
  | cons file rest ih =>
    obtain ⟨name, text⟩ := file
    exact .head (.add name text (.inr rfl)) (ih ((walks_add w name text).symm ▸ hx))

theorem finishRound_moves (hx : w.walks[k]? = some x) (infos : List Dependencies) :
    Moves env .tick w (w.finishRound (env x.resolver) k x infos) := by
  unfold finishRound
  simp only
  generalize hnext : ({ x with
    visited := Dependencies.distinct (x.visited ++ x.pending)
    pending := w.unfetched infos
    round := x.round + 1 } : Walk) = next
  have hres : next.resolver = x.resolver := by rw [← hnext]
  have hfetches : next.fetches = x.fetches := by rw [← hnext]
  have hphase : next.phase = x.phase := by rw [← hnext]
  generalize Notice.walked x.pending.length (w.unfetched infos).length = notice
  have haside : Aside w ((w.note notice).modifyWalk k fun _ => next) :=
    (aside_note w _).trans (aside_modifyWalk _ k _ fun y hy h => by
      obtain rfl : x = y := Option.some.inj (hx.symm.trans hy)
      exact ⟨hfetches ▸ h.fetches, fun hp => h.waiters (hphase ▸ hp)⟩)
  have hwalk : ((w.note notice).modifyWalk k fun _ => next).walks[k]? = some next := by
    simp [modifyWalk, hx]
  have hround := startRound_moves env hwalk next rfl
  rw [hres] at hround
  exact haside.moves.trans hround

theorem wakeWalk_moves (hx : w.walks[k]? = some x) :
    Moves env .tick w (w.wakeWalk (env x.resolver) k x) :=
  wakeWalk_cases .refl (fun _ _ _ => (aside_endWalk _ _ _).moves)
    (fun _ missing texts _ _ => addRound_moves hx missing texts)
    fun _ _ _ infos _ _ => finishRound_moves hx infos

theorem hearWalk_moves (hx : w.walks[k]? = some x) (a : Action) (place : Nat) :
    Moves env a w (w.hearWalk k x place) := by
  refine hearWalk_cases .refl fun waiters tally ending hp _ => ?_
  have hheard : Aside w (w.modifyWalk k fun y =>
      { y with phase := .resolving waiters (tally.hear place ending) }) := by
    refine aside_modifyWalk w k _ fun y hy h => ⟨h.fetches, ?_⟩
    obtain rfl : x = y := Option.some.inj (hx.symm.trans hy)
    rintro _ _ ⟨⟩
    exact h.waiters hp
  exact ⟨hheard.moves, (hheard.trans (aside_post_walk _ k _)).moves⟩

/-- **Every job of a walk is made of moves.** -/
theorem performWalk_moves (hw : w.ProperWalks) (job : WalkJob) :
    Moves env .tick w
      (w.performWalk (env ((w.walks[k]?.map Walk.resolver).getD 0)) k job) := by
  cases hx : w.walks[k]? with
  | none =>
    simp only [performWalk, hx]
    exact .refl
  | some x =>
    exact performWalk_cases hx job (fun _ => (aside_endWalk _ _ _).moves)
      (fun _ _ => startRound_moves env hx x rfl) (wakeWalk_moves hx)
      (fun fetch => (aside_fetch hw hx fetch).moves) (hearWalk_moves hx _)

theorem cancelWaiters_moves {waiters : List (FileId × Nat)}
    (h : ∀ p ∈ waiters, ∃ place, w.store.Listens p.1 p.2 (some ⟨k, place⟩))
    (tally : Tally Fault Dependencies) :
    Moves env (.cancelWalk k) w (w.cancelWaiters waiters tally).1 := by
  obtain ⟨given, hsub, heq⟩ := cancelWaiters_eq w waiters tally
  have hgiven : ∀ p ∈ given, ∃ place, w.store.Listens p.1 p.2 (some ⟨k, place⟩) :=
    fun p hp => h p (hsub hp)
  rw [heq]
  clear h hsub heq
  induction given generalizing w with
  | nil => exact .refl
  | cons p rest ih =>
    obtain ⟨place, hp⟩ := hgiven p List.mem_cons_self
    refine .head (.giveUp (.walk hp)) (ih fun q hq => ?_)
    obtain ⟨place', hq'⟩ := hgiven q (List.mem_cons_of_mem _ hq)
    exact ⟨place', (grows_giveUp w p.1 p.2).listens hq'⟩

theorem cancelWalk_moves (hw : w.ProperWalks) (k : Nat) :
    Moves env (.cancelWalk k) w (w.cancelWalk k) := by
  unfold cancelWalk
  split
  · exact .refl
  · rename_i x hx
    have hstop : ∀ w' : World, Aside w' (w'.modifyWalk k fun x => { x with stopping := true }) :=
      fun w' => aside_modifyWalk _ _ _ fun _ _ h => ⟨h.fetches, h.waiters⟩
    cases hp : x.phase with
    | starting => exact (hstop w).moves
    | fetching missing =>
      simp only
      split
      · exact (aside_cancelFetches hx).moves
      · exact ((aside_cancelFetches hx).trans (hstop _)).moves
    | resolving waiters tally =>
      have hlistens : ∀ p ∈ waiters, ∃ place, w.store.Listens p.1 p.2 (some ⟨k, place⟩) := by
        intro p hm
        obtain ⟨place, hplace⟩ := List.mem_iff_getElem?.mp hm
        exact ⟨place, (hw k x hx).waiters hp hplace⟩
      simp only
      split
      · exact cancelWaiters_moves hlistens tally
      · exact (cancelWaiters_moves hlistens tally).trans (hstop _).moves
    | finished => exact .refl

end Walks

/-- **Every action other than a tick is made of moves.** -/
theorem apply_moves {w : World} (hw : w.ProperWalks) (h : a ≠ .tick) :
    Moves env a w (w.apply env a) := by
  cases a with
  | tick => exact absurd rfl h
  | add name text => exact .single (.add name text (.inl rfl))
  | setText name text => exact .single (.setText rfl)
  | register resolver address => exact .single (.register rfl)
  | resolve resolver name => exact .single (.ask (.request resolver name))
  | resolveWithoutLoop resolver name => exact .single (.askWithoutLoop rfl)
  | giveUp file waiter => exact .single (.giveUp (.waiter file waiter))
  | walk resolver entries => exact (aside_walk w resolver entries).moves
  | cancelWalk k => exact cancelWalk_moves hw k
  | release gate => exact .single (.release rfl)

end World

end DepGraph
