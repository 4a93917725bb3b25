import DepGraph.Resolution.Run
import DepGraph.Proofs.Requests

/-!
# What a walk leaves as it is

A walk asks for files, adds files, writes to the log, changes its own state and makes jobs of its
own due, and nothing else. A relation of two worlds that holds whenever one of these is done, and
along a chain, holds between a world and what a job of a walk, or its being cancelled, makes of it.

* `World.walks_resolve`, `World.loop_setText` and their like — what is no part of a change.
* `World.resolveAll_induction`, `World.cancelWalk_induction` — what every request of a round keeps,
  and every step of a cancellation.
* `World.performWalk_cases` — what a job of a walk can come to; `World.resolveRound_cases`,
  `World.startRound_cases`, `World.wakeWalk_cases` and `World.hearWalk_cases` — and its parts.
* `World.Frames` — a relation that everything keeps that walk `k` does;
  `World.Frames.performWalk` — so every job of the walk does.
-/

set_option autoImplicit false

namespace DepGraph

namespace World

/-! ## The walks of a world -/

@[simp] theorem walks_record (w : World) (events : List Event) :
    (w.record events).walks = w.walks := rfl

@[simp] theorem walks_note (w : World) (n : Notice) : (w.note n).walks = w.walks := rfl

@[simp] theorem walks_modifyFile (w : World) (id : FileId) (change : Record → Record) :
    (w.modifyFile id change).walks = w.walks := rfl

@[simp] theorem walks_post (w : World) (job : Job) : (w.post job).walks = w.walks := rfl

@[simp] theorem walks_add (w : World) (name text : String) : (w.add name text).walks = w.walks := by
  unfold add
  split <;> rfl

@[simp] theorem walks_setText (w : World) (name text : String) :
    (w.setText name text).walks = w.walks := by
  unfold setText
  split <;> rfl

theorem loop_setText (w : World) (name text : String) : (w.setText name text).loop = w.loop := by
  unfold setText
  split <;> rfl

@[simp] theorem walks_alert (w : World) (listener : Option WalkRef) :
    (w.alert listener).walks = w.walks := by
  cases listener <;> rfl

@[simp] theorem walks_giveUp (w : World) (id : FileId) (waiter : Nat) :
    (w.giveUp id waiter).walks = w.walks := by
  unfold giveUp
  split <;> simp

@[simp] theorem walks_begin (env : Environment) (w : World) (resolver : Nat) (id : FileId)
    (text : String) (found : Extraction) (notices : List Notice) :
    (w.begin env resolver id text found notices).walks = w.walks := rfl

@[simp] theorem walks_join (w : World) (id : FileId) (listener : Option WalkRef) :
    (w.join id listener).walks = w.walks := rfl

theorem walks_resolve (env : Environment) (w : World) (resolver : Nat) (name : String)
    (listener : Option WalkRef) : (w.resolve env resolver name listener).1.walks = w.walks := by
  rcases resolve_spec env w resolver name listener with
    ⟨_, h⟩ | ⟨_, _, _, _, ⟨_, _, _, h⟩ | ⟨_, _, _, _, h⟩ | ⟨_, h⟩⟩ <;> rw [h] <;> rfl

theorem walks_resolveWithoutLoop (env : Environment) (w : World) (name : String)
    (listener : Option WalkRef) :
    (w.resolveWithoutLoop env name listener).1.walks = w.walks := by
  rcases resolveWithoutLoop_spec env w name listener with
    ⟨_, h⟩ | ⟨_, _, _, _, ⟨_, _, _, h⟩ | ⟨_, _, _, _, h⟩ | ⟨_, h⟩⟩ <;> rw [h] <;> rfl

/-- Without a loop nothing comes to be due. -/
theorem loop_resolveWithoutLoop (env : Environment) (w : World) (name : String)
    (listener : Option WalkRef) :
    (w.resolveWithoutLoop env name listener).1.loop = w.loop := by
  rcases resolveWithoutLoop_spec env w name listener with
    ⟨_, h⟩ | ⟨_, _, _, _, ⟨_, _, _, h⟩ | ⟨_, _, _, _, h⟩ | ⟨_, h⟩⟩ <;> rw [h] <;> rfl

/-! ## The requests of a round -/

/-- What every single request keeps, the requests of a round keep. -/
theorem resolveAll_induction {R : World → World → Prop} (hrefl : ∀ w, R w w)
    (htrans : ∀ {w₁ w₂ w₃}, R w₁ w₂ → R w₂ w₃ → R w₁ w₃) {env : Environment} {resolver k : Nat}
    (hask : ∀ (w : World) (name : String) (place : Nat),
      R w (w.resolve env resolver name (some ⟨k, place⟩)).1)
    (place : Nat) (w : World) (names : List String) :
    R w (resolveAll env resolver k place w names).1 := by
  induction names generalizing w place with
  | nil => exact hrefl w
  | cons name rest ih =>
    have hfirst := hask w name place
    unfold resolveAll
    split
    · rename_i w₁ refusal heq
      rwa [heq] at hfirst
    · rename_i w₁ waiter heq
      rw [heq] at hfirst
      have hrest := htrans hfirst (ih (place + 1) w₁)
      split <;> rename_i heq' <;> rwa [heq'] at hrest

theorem grows_resolveAll (env : Environment) (resolver k place : Nat) (w : World)
    (names : List String) : w.store.Grows (resolveAll env resolver k place w names).1.store :=
  resolveAll_induction (R := fun w w' => w.store.Grows w'.store) (fun _ => .refl _)
    (fun h h' => h.trans h') (fun w name _ => grows_resolve env w resolver name _) place w names

theorem walks_resolveAll (env : Environment) (resolver k place : Nat) (w : World)
    (names : List String) : (resolveAll env resolver k place w names).1.walks = w.walks :=
  resolveAll_induction (R := fun w w' => w'.walks = w.walks) (fun _ => rfl)
    (fun h h' => h'.trans h) (fun w name _ => walks_resolve env w resolver name _) place w names

/-! ## A walk that is cancelled -/

/-- A walk that is cancelled gives up on some of the files that it waits for. -/
theorem cancelWaiters_eq (w : World) (waiters : List (FileId × Nat))
    (tally : Tally Fault Dependencies) : ∃ given, given ⊆ waiters ∧
      (w.cancelWaiters waiters tally).1 = given.foldl (fun w p => w.giveUp p.1 p.2) w := by
  unfold cancelWaiters
  simp only
  split
  · exact ⟨[], List.nil_subset _, rfl⟩
  · exact ⟨_, List.filter_subset_self _, rfl⟩

section Cancelling

variable {R : World → World → Prop} (hrefl : ∀ w, R w w)
  (htrans : ∀ {w₁ w₂ w₃}, R w₁ w₂ → R w₂ w₃ → R w₁ w₃)
  (hgiveUp : ∀ (w : World) (id : FileId) (waiter : Nat), R w (w.giveUp id waiter))

include hrefl htrans hgiveUp

theorem cancelWaiters_induction (w : World) (waiters : List (FileId × Nat))
    (tally : Tally Fault Dependencies) : R w (w.cancelWaiters waiters tally).1 := by
  obtain ⟨given, -, heq⟩ := cancelWaiters_eq w waiters tally
  rw [heq]
  clear heq
  induction given generalizing w with
  | nil => exact hrefl w
  | cons p rest ih => exact htrans (hgiveUp w p.1 p.2) (ih _)

/-- What is kept whenever somebody gives up, whenever the texts of a walk are cancelled and
whenever it is told to stop, is kept when it is cancelled. -/
theorem cancelWalk_induction {k : Nat}
    (hfetches : ∀ (w : World) (x : Walk), w.walks[k]? = some x → R w (w.cancelFetches k x).1)
    (hstop : ∀ w : World, R w (w.modifyWalk k fun x => { x with stopping := true })) (w : World) :
    R w (w.cancelWalk k) := by
  have hstops : ∀ (w' : World) (taken : Bool), R w w' →
      R w (if taken then w' else w'.modifyWalk k fun x => { x with stopping := true }) := by
    intro w' taken h
    split
    · exact h
    · exact htrans h (hstop w')
  unfold cancelWalk
  split
  · exact hrefl w
  · rename_i x hx
    cases x.phase with
    | starting => exact hstops w false (hrefl w)
    | fetching missing => exact hstops _ _ (hfetches w x hx)
    | resolving waiters tally =>
      exact hstops _ _ (cancelWaiters_induction hrefl htrans hgiveUp w waiters tally)
    | finished => exact hstops w true (hrefl w)

end Cancelling

/-! ## The jobs of a walk, case by case -/

/-- What a job of the texts that walk `k` fetches makes of the world. -/
def performFetch (w : World) (k : Nat) (x : Walk) (job : JoinJob) : World :=
  (({ w with loop := (x.fetches.perform (fun j => .walk k (.fetch j)) w.loop job).2.1 } :
    World).modifyWalk k fun y =>
      { y with fetches := (x.fetches.perform (fun j => .walk k (.fetch j)) w.loop job).2.2 }).record
    (x.fetches.perform (fun j => .walk k (.fetch j)) w.loop job).1

theorem performWalk_fetch {env : Environment} {w : World} {k : Nat} {x : Walk}
    (hx : w.walks[k]? = some x) {job : JoinJob} (hjob : job ≠ .wake) :
    w.performWalk env k (.fetch job) = w.performFetch k x job := by
  cases job with
  | wake => exact absurd rfl hjob
  | _ => simp [performWalk, hx, performFetch]

section Cases

variable {env : Environment} {w : World} {k : Nat} {x : Walk} {P : World → Prop}

/-- The files of a round are asked for: the walk ends with a refusal, or it waits and is to hear of
those that were resolved before. -/
theorem resolveRound_cases
    (refused : ∀ w₁ refusal, resolveAll env x.resolver k 0 w x.pending = (w₁, .error refusal) →
      P (w₁.endWalk k (.raised (.refused refusal))))
    (waits : ∀ w₁ waiters, resolveAll env x.resolver k 0 w x.pending = (w₁, .ok waiters) →
      P { w₁.modifyWalk k fun y =>
          { y with phase := .resolving waiters (Tally.start waiters.length) } with
        loop := w₁.loop.postAll (((w₁.settledPlaces waiters).map .resolved).map (.walk k)) }) :
    P (w.resolveRound env k x) := by
  unfold resolveRound
  split
  · rename_i w₁ refusal heq
    exact refused w₁ refusal heq
  · rename_i w₁ waiters heq
    have hwaits := waits w₁ waiters heq
    rwa [List.map_map] at hwaits

/-- A round begins, or no file is left. -/
theorem startRound_cases (ends : x.pending = [] → P (w.endWalk k (.returned x.visited)))
    (resolves : x.pending ≠ [] → (∀ name ∈ x.pending, w.store.contains name = true) →
      P (w.resolveRound env k x))
    (fetches : x.pending ≠ [] → ∀ missing,
      missing = x.pending.filter (fun name => !w.store.contains name) → missing ≠ [] →
      P (({ w with
        loop := ((Join.ofScripts (missing.mapIdx fun i name =>
          fetchScript env ⟨k, x.round, i⟩ name)).perform (fun j => .walk k (.fetch j)) w.loop
            .launch).2.1 } : World).modifyWalk k fun y =>
        { y with
          phase := .fetching missing
          fetches := Join.ofScripts (missing.mapIdx fun i name =>
            fetchScript env ⟨k, x.round, i⟩ name) })) :
    P (w.startRound env k x) := by
  unfold startRound
  split
  · rename_i hnil
    exact ends (List.isEmpty_iff.mp hnil)
  · rename_i hsome
    have hpending : x.pending ≠ [] := fun hnil => hsome (List.isEmpty_iff.mpr hnil)
    simp only
    split
    · rename_i hnone
      refine resolves hpending fun name hname => ?_
      simpa using List.filter_eq_nil_iff.mp (List.isEmpty_iff.mp hnone) name hname
    · rename_i hlacks
      exact fetches hpending _ rfl fun hnil => hlacks (List.isEmpty_iff.mpr hnil)

/-- A walk that wakes goes on where its round has its verdict, or ends: one that was told to stop,
or whose round has failed. -/
theorem wakeWalk_cases (stays : P w)
    (ends : ∀ ending : Ending WalkFault (List String), (∀ names, ending ≠ .returned names) →
      (x.stopping = true ∨ x.phase ≠ .starting) → P (w.endWalk k ending))
    (adds : x.stopping = false → ∀ missing texts, x.phase = .fetching missing →
      x.fetches.tally.verdict = some (.returned texts) → P (w.addRound env k x missing texts))
    (finishes : x.stopping = false → ∀ waiters tally infos, x.phase = .resolving waiters tally →
      tally.verdict = some (.returned infos) → P (w.finishRound env k x infos)) :
    P (w.wakeWalk env k x) := by
  unfold wakeWalk
  split
  · rename_i hstopping
    exact ends _ nofun (.inl hstopping)
  · rename_i hgoing
    have hgoing : x.stopping = false := Bool.not_eq_true _ ▸ hgoing
    split
    · rename_i missing hphase
      have hbegun : x.phase ≠ .starting := by simp [hphase]
      split
      · rename_i texts hv
        exact adds hgoing missing texts hphase hv
      · exact ends _ nofun (.inr hbegun)
      · exact ends _ nofun (.inr hbegun)
      · exact stays
    · rename_i waiters tally hphase
      have hbegun : x.phase ≠ .starting := by simp [hphase]
      split
      · rename_i infos hv
        exact finishes hgoing waiters tally infos hphase hv
      · exact ends _ nofun (.inr hbegun)
      · exact ends _ nofun (.inr hbegun)
      · exact stays
    · exact stays

/-- A walk that hears of an outcome in its round takes note of it, and wakes if that decides. -/
theorem hearWalk_cases {place : Nat} (stays : P w)
    (hears : ∀ waiters tally ending, x.phase = .resolving waiters tally →
      (waiters[place]?.bind fun p => w.outcome? p.1 p.2) = some ending →
      P (w.modifyWalk k fun y => { y with phase := .resolving waiters (tally.hear place ending) }) ∧
      P ((w.modifyWalk k fun y =>
        { y with phase := .resolving waiters (tally.hear place ending) }).post (.walk k .wake))) :
    P (w.hearWalk k x place) := by
  unfold hearWalk
  split
  · rename_i waiters tally hphase
    split
    · rename_i ending hout
      simp only
      split
      · exact (hears waiters tally ending hphase hout).2
      · exact (hears waiters tally ending hphase hout).1
    · exact stays
  · exact stays

/-- **The jobs of a walk**: it begins, wakes, hears of a file, or its requests for texts go on. -/
theorem performWalk_cases (hx : w.walks[k]? = some x) (job : WalkJob)
    (ends : job = .start → P (w.endWalk k .cancelled))
    (starts : job = .start → x.stopping = false → P (w.startRound env k x))
    (wakes : P (w.wakeWalk env k x))
    (fetches : ∀ fetch : JoinJob, P (w.performFetch k x fetch))
    (hears : ∀ place, P (w.hearWalk k x place)) : P (w.performWalk env k job) := by
  unfold performWalk
  simp only [hx]
  split
  · split
    · exact ends rfl
    · rename_i hgoing
      exact starts rfl (Bool.not_eq_true _ ▸ hgoing)
  · exact wakes
  · exact fetches _
  · exact hears _
  · exact wakes

end Cases

/-! ## What a walk does -/

/-- Whatever walk `k` does to a world besides adding files and logging the events of its requests,
the world before and the world after are related. -/
structure Frames (k : Nat) (R : World → World → Prop) : Prop where
  refl : ∀ w, R w w
  trans : ∀ {w₁ w₂ w₃}, R w₁ w₂ → R w₂ w₃ → R w₁ w₃
  ask : ∀ (env : Environment) (resolver : Nat) (w : World) (name : String) (place : Nat),
    R w (w.resolve env resolver name (some ⟨k, place⟩)).1
  note : ∀ (w : World) (n : Notice), R w (w.note n)
  modifyWalk : ∀ (w : World) (change : Walk → Walk),
    (∀ x, w.walks[k]? = some x → (change x).resolver = x.resolver) → R w (w.modifyWalk k change)
  post : ∀ (w : World) (jobs : List WalkJob),
    R w { w with loop := w.loop.postAll (jobs.map (.walk k)) }
  fetch : ∀ (w : World) (join : Join Event Cause String) (job : JoinJob),
    R w { w with loop := (join.perform (fun j => .walk k (.fetch j)) w.loop job).2.1 }

namespace Frames

variable {k : Nat} {R : World → World → Prop}

theorem endWalk (h : Frames k R) (w : World) (ending : Ending WalkFault (List String)) :
    R w (w.endWalk k ending) :=
  h.modifyWalk w _ fun _ _ => rfl

theorem resolveRound (h : Frames k R) (env : Environment) (w : World) (x : Walk) :
    R w (w.resolveRound env k x) := by
  have hall := resolveAll_induction h.refl h.trans (h.ask env x.resolver) 0 w x.pending
  refine resolveRound_cases (fun w₁ refusal heq => ?_) fun w₁ waiters heq => ?_ <;> rw [heq] at hall
  · exact h.trans hall (h.endWalk w₁ _)
  · have hwaits := h.modifyWalk w₁ (fun y =>
      { y with phase := .resolving waiters (Tally.start waiters.length) }) fun _ _ => rfl
    exact h.trans hall (h.trans hwaits (h.post _ ((w₁.settledPlaces waiters).map .resolved)))

theorem startRound (h : Frames k R) (env : Environment) (w : World) (x : Walk) :
    R w (w.startRound env k x) :=
  startRound_cases (fun _ => h.endWalk _ _) (fun _ _ => h.resolveRound _ _ _)
    fun _ _ _ _ => h.trans (h.fetch w _ .launch) (h.modifyWalk _ _ fun _ _ => rfl)

theorem addRound (h : Frames k R) (hadd : ∀ (w : World) (name text : String), R w (w.add name text))
    (env : Environment) (w : World) (x : Walk) (missing texts : List String) :
    R w (w.addRound env k x missing texts) := by
  refine h.trans ?_ (h.resolveRound _ _ _)
  generalize missing.zip texts = files
  induction files generalizing w with
  | nil => exact h.refl w
  | cons file rest ih => exact h.trans (hadd w file.1 file.2) (ih _)

theorem finishRound (h : Frames k R) (env : Environment) {w : World} {x : Walk}
    (hx : w.walks[k]? = some x) (infos : List Dependencies) :
    R w (w.finishRound env k x infos) := by
  refine h.trans (h.trans (h.note w _) (h.modifyWalk _ _ fun y hy => ?_)) (h.startRound _ _ _)
  obtain rfl : x = y := Option.some.inj (hx.symm.trans hy)
  rfl

theorem wakeWalk (h : Frames k R) (env : Environment) {w : World} {x : Walk}
    (hx : w.walks[k]? = some x)
    (hadd : ∀ missing, x.phase = .fetching missing →
      ∀ (w : World) (name text : String), R w (w.add name text)) :
    R w (w.wakeWalk env k x) :=
  wakeWalk_cases (h.refl w) (fun _ _ _ => h.endWalk _ _)
    (fun _ missing texts hphase _ => h.addRound (hadd missing hphase) env w x missing texts)
    fun _ _ _ infos _ _ => h.finishRound env hx infos

theorem hearWalk (h : Frames k R) (w : World) (x : Walk) (place : Nat) :
    R w (w.hearWalk k x place) := by
  refine hearWalk_cases (h.refl w) fun waiters tally ending _ _ => ?_
  have hheard := h.modifyWalk w (fun y =>
    { y with phase := .resolving waiters (tally.hear place ending) }) fun _ _ => rfl
  exact ⟨hheard, h.trans hheard (h.post _ [.wake])⟩

/-- **A job of a walk** keeps what everything keeps that the walk does: provided that, where it
waits for texts, adding a file keeps it, and that logging what its requests log does. -/
theorem performWalk (h : Frames k R) (env : Environment) (w : World) (job : WalkJob)
    (hadd : ∀ x missing, w.walks[k]? = some x → x.phase = .fetching missing →
      ∀ (w : World) (name text : String), R w (w.add name text))
    (hlog : ∀ x, w.walks[k]? = some x → ∀ (job : JoinJob) (w' : World),
      R w' (w'.record (x.fetches.perform (fun j => Job.walk k (.fetch j)) w.loop job).1)) :
    R w (w.performWalk env k job) := by
  cases hx : w.walks[k]? with
  | none =>
    simp only [World.performWalk, hx]
    exact h.refl w
  | some x =>
    refine performWalk_cases hx job (fun _ => h.endWalk _ _) (fun _ _ => h.startRound _ _ _)
      (h.wakeWalk env hx fun missing => hadd x missing hx) (fun fetch => ?_) (h.hearWalk w x)
    refine h.trans (h.trans (h.fetch w x.fetches fetch) ?_) (hlog x hx fetch _)
    exact h.modifyWalk _ _ fun _ _ => rfl

end Frames

end World

end DepGraph
