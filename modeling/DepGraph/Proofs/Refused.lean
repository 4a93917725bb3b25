import DepGraph.Resolution.Run
import DepGraph.Proofs.Requests
import DepGraph.Proofs.Refinement

/-!
# Requests that are refused

A request is refused where the store does not know the file, where its specifiers cannot be read, or
where nothing can be started. All that a refused request leaves behind is what was logged while the
text was read, and nothing that happens later depends on the log.

* `World.remember` — a world that has logged some events before its own;
* `World.apply_remember`, `World.run_remember` — whatever is done, it is done alike without them;
* `World.refused_changes_nothing` — **a refused request changes nothing**, now or later.
-/

set_option autoImplicit false

namespace DepGraph.World

/-- A world that has logged some events before its own. -/
def remember (past : List Event) (w : World) : World := { w with log := past ++ w.log }

variable (past : List Event) (w : World)

@[simp] theorem store_remember : (w.remember past).store = w.store := rfl

@[simp] theorem loop_remember : (w.remember past).loop = w.loop := rfl

@[simp] theorem walks_remember : (w.remember past).walks = w.walks := rfl

@[simp] theorem registries_remember : (w.remember past).registries = w.registries := rfl

/-! ## Nothing depends on the log -/

@[simp] theorem record_remember (events : List Event) :
    (w.remember past).record events = (w.record events).remember past := by
  simp [record, remember]

@[simp] theorem note_remember (n : Notice) : (w.remember past).note n = (w.note n).remember past :=
  record_remember past w _

@[simp] theorem post_remember (job : Job) :
    (w.remember past).post job = (w.post job).remember past := rfl

@[simp] theorem modifyFile_remember (id : FileId) (change : Record → Record) :
    (w.remember past).modifyFile id change = (w.modifyFile id change).remember past := rfl

@[simp] theorem modifyWalk_remember (k : Nat) (change : Walk → Walk) :
    (w.remember past).modifyWalk k change = (w.modifyWalk k change).remember past := rfl

@[simp] theorem endWalk_remember (k : Nat) (ending : Ending WalkFault (List String)) :
    (w.remember past).endWalk k ending = (w.endWalk k ending).remember past := rfl

@[simp] theorem alert_remember (listener : Option WalkRef) :
    (w.remember past).alert listener = (w.alert listener).remember past := by
  cases listener <;> rfl

@[simp] theorem join_remember (id : FileId) (listener : Option WalkRef) :
    (w.remember past).join id listener = (w.join id listener).remember past := rfl

@[simp] theorem read_remember (id : FileId) (text : String) :
    (w.remember past).read id text = (w.read id text).remember past := by
  simp [read]

@[simp] theorem add_remember (name text : String) :
    (w.remember past).add name text = (w.add name text).remember past := by
  cases known : w.store.contains name <;> simp [add, known, remember, note, record]

theorem setText_remember (name text : String) :
    (w.remember past).setText name text = (w.setText name text).remember past := by
  unfold setText
  rw [store_remember]
  cases w.store.current? name <;> rfl

theorem register_remember (resolver : Nat) (address : String) :
    (w.remember past).register resolver address = (w.register resolver address).remember past := by
  simp [register, note, record, remember]

@[simp] theorem begin_remember (env : Environment) (resolver : Nat) (id : FileId) (text : String)
    (found : Extraction) (notices : List Notice) :
    (w.remember past).begin env resolver id text found notices =
      (w.begin env resolver id text found notices).remember past := by
  simp only [begin, read_remember, record_remember]
  rfl

variable (env : Environment)

/-- A request is answered alike. -/
theorem resolve_remember (resolver : Nat) (name : String) (listener : Option WalkRef) :
    (w.remember past).resolve env resolver name listener =
      ((w.resolve env resolver name listener).1.remember past,
        (w.resolve env resolver name listener).2) := by
  rcases find?_cases w name with missing | ⟨id, r, current, recorded⟩
  · rw [resolve_missing missing, resolve_missing (by rwa [store_remember])]
  · have current' : (w.remember past).store.current? name = some id := current
    have recorded' : (w.remember past).store.record? id = some r := recorded
    by_cases fresh : r.cell.stage = .unstarted
    · cases extracted : env.extract r.text with
      | error cause =>
        rw [resolve_unreadable current recorded fresh extracted,
          resolve_unreadable current' recorded' fresh extracted, read_remember]
      | ok found =>
        obtain ⟨found, notices⟩ := found
        rw [resolve_first current recorded fresh extracted,
          resolve_first current' recorded' fresh extracted, begin_remember, join_remember]
    · rw [resolve_later current recorded fresh, resolve_later current' recorded' fresh,
        join_remember]

theorem resolveWithoutLoop_remember (name : String) (listener : Option WalkRef) :
    (w.remember past).resolveWithoutLoop env name listener =
      ((w.resolveWithoutLoop env name listener).1.remember past,
        (w.resolveWithoutLoop env name listener).2) := by
  rcases find?_cases w name with missing | ⟨id, r, current, recorded⟩
  · rw [resolveWithoutLoop_missing missing, resolveWithoutLoop_missing (by rwa [store_remember])]
  · have current' : (w.remember past).store.current? name = some id := current
    have recorded' : (w.remember past).store.record? id = some r := recorded
    by_cases fresh : r.cell.stage = .unstarted
    · cases extracted : env.extract r.text with
      | error cause =>
        rw [resolveWithoutLoop_unreadable current recorded fresh extracted,
          resolveWithoutLoop_unreadable current' recorded' fresh extracted, read_remember]
      | ok found =>
        obtain ⟨found, notices⟩ := found
        rw [resolveWithoutLoop_first current recorded fresh extracted,
          resolveWithoutLoop_first current' recorded' fresh extracted, read_remember,
          record_remember]
    · rw [resolveWithoutLoop_later current recorded fresh,
        resolveWithoutLoop_later current' recorded' fresh, join_remember]

@[simp] theorem giveUp_remember (id : FileId) (waiter : Nat) :
    (w.remember past).giveUp id waiter = (w.giveUp id waiter).remember past := by
  unfold giveUp
  rw [store_remember]
  cases w.store.record? id with
  | none => rfl
  | some r => simp

theorem outcome?_remember (id : FileId) (waiter : Nat) :
    (w.remember past).outcome? id waiter = w.outcome? id waiter := rfl

theorem performFile_remember (id : FileId) (job : FileJob) :
    (w.remember past).performFile id job = (w.performFile id job).remember past := by
  unfold performFile
  rw [store_remember]
  cases w.store.record? id with
  | none => rfl
  | some r =>
    let done := r.perform (.file id) id.name w.registries w.loop job
    change (((({ w with loop := done.loop } : World).remember past).modifyFile id
      fun _ => done.record).record done.events).alert done.listener = _
    rw [modifyFile_remember, record_remember, alert_remember]

/-! ## Walks -/

theorem resolveAll_remember (resolver k : Nat) (place : Nat) (names : List String) :
    resolveAll env resolver k place (w.remember past) names =
      ((resolveAll env resolver k place w names).1.remember past,
        (resolveAll env resolver k place w names).2) := by
  induction names generalizing place w with
  | nil => rfl
  | cons name rest ih =>
    simp only [resolveAll, resolve_remember]
    rcases w.resolve env resolver name (some ⟨k, place⟩) with ⟨w', refusal | waiter⟩
    · rfl
    · simp only [ih]
      rcases resolveAll env resolver k (place + 1) w' rest with ⟨w'', refusal | waiters⟩ <;> rfl

theorem resolveRound_remember (k : Nat) (x : Walk) :
    (w.remember past).resolveRound env k x = (w.resolveRound env k x).remember past := by
  unfold resolveRound
  rw [resolveAll_remember]
  rcases resolveAll env x.resolver k 0 w x.pending with ⟨w', refusal | waiters⟩ <;> rfl

theorem startRound_remember (k : Nat) (x : Walk) :
    (w.remember past).startRound env k x = (w.startRound env k x).remember past := by
  unfold startRound
  by_cases hover : x.pending.isEmpty = true
  · rw [if_pos hover, if_pos hover, endWalk_remember]
  · rw [if_neg hover, if_neg hover]
    by_cases known : (x.pending.filter fun name => !w.store.contains name).isEmpty = true
    · refine (if_pos known).trans ((resolveRound_remember past w env k x).trans ?_)
      rw [if_pos known]
    · refine (if_neg known).trans ?_
      rw [if_neg known]
      rfl

theorem foldl_add_remember (files : List (String × String)) (w : World) :
    files.foldl (fun w (name, text) => w.add name text) (w.remember past) =
      (files.foldl (fun w (name, text) => w.add name text) w).remember past := by
  induction files generalizing w with
  | nil => rfl
  | cons file rest ih => simp only [List.foldl_cons, add_remember, ih]

theorem addRound_remember (k : Nat) (x : Walk) (missing texts : List String) :
    (w.remember past).addRound env k x missing texts =
      (w.addRound env k x missing texts).remember past := by
  unfold addRound
  rw [foldl_add_remember, resolveRound_remember]

theorem finishRound_remember (k : Nat) (x : Walk) (infos : List Dependencies) :
    (w.remember past).finishRound env k x infos = (w.finishRound env k x infos).remember past := by
  unfold finishRound
  simp only [unfetched, store_remember, note_remember, modifyWalk_remember, startRound_remember]

theorem wakeWalk_remember (k : Nat) (x : Walk) :
    (w.remember past).wakeWalk env k x = (w.wakeWalk env k x).remember past := by
  unfold wakeWalk
  split
  · rfl
  · split
    · split
      · exact addRound_remember past w env k x _ _
      · rfl
      · rfl
      · rfl
    · split
      · exact finishRound_remember past w env k x _
      · rfl
      · rfl
      · rfl
    · rfl

theorem hearWalk_remember (k : Nat) (x : Walk) (place : Nat) :
    (w.remember past).hearWalk k x place = (w.hearWalk k x place).remember past := by
  unfold hearWalk
  split
  · simp only [outcome?_remember]
    split
    · split <;> rfl
    · rfl
  · rfl

theorem performWalk_remember (k : Nat) (job : WalkJob) :
    (w.remember past).performWalk env k job = (w.performWalk env k job).remember past := by
  unfold performWalk
  rw [walks_remember]
  split
  · rfl
  · split
    · split
      · rfl
      · exact startRound_remember past w env k _
    · exact wakeWalk_remember past w env k _
    · next x _ _ job _ =>
        generalize performed :
          x.fetches.perform (fun j => .walk k (.fetch j)) (w.remember past).loop job = done
        rw [loop_remember] at performed
        obtain ⟨events, loop, join⟩ := done
        simp only [performed]
        exact record_remember past (({ w with loop } : World).modifyWalk k _) events
    · exact hearWalk_remember past w k _ _
    · exact wakeWalk_remember past w env k _

theorem foldl_giveUp_remember (waiters : List (FileId × Nat)) (w : World) :
    waiters.foldl (fun w (id, waiter) => w.giveUp id waiter) (w.remember past) =
      (waiters.foldl (fun w (id, waiter) => w.giveUp id waiter) w).remember past := by
  induction waiters generalizing w with
  | nil => rfl
  | cons waiter rest ih => simp only [List.foldl_cons, giveUp_remember, ih]

theorem cancelWalk_remember (k : Nat) :
    (w.remember past).cancelWalk k = (w.cancelWalk k).remember past := by
  unfold cancelWalk
  rw [walks_remember]
  cases w.walks[k]? with
  | none => rfl
  | some x =>
    cases phase : x.phase with
    | starting =>
      simp only [phase]
      rfl
    | finished => simp only [phase, if_true]
    | fetching missing =>
      simp only [phase, cancelFetches]
      split <;> rfl
    | resolving waiters tally =>
      simp only [phase, cancelWaiters, outcome?_remember, foldl_giveUp_remember]
      split <;> rfl

/-! ## Runs -/

variable (envs : Nat → Environment)

/-- **Whatever is done**, it is done alike in a world that has logged more. -/
theorem apply_remember (a : Action) :
    (w.remember past).apply envs a = (w.apply envs a).remember past := by
  cases a with
  | tick =>
    simp only [apply, tick, loop_remember]
    cases w.loop.next? with
    | none => rfl
    | some due =>
      obtain ⟨job, loop⟩ := due
      cases job with
      | file id job => exact performFile_remember past { w with loop } id job
      | walk k job => exact performWalk_remember past { w with loop } _ k job
  | add name text => exact add_remember past w name text
  | setText name text => exact setText_remember past w name text
  | register resolver address => exact register_remember past w resolver address
  | resolve resolver name => exact congrArg Prod.fst (resolve_remember past w _ resolver name none)
  | resolveWithoutLoop resolver name =>
    exact congrArg Prod.fst (resolveWithoutLoop_remember past w _ name none)
  | giveUp id waiter => exact giveUp_remember past w id waiter
  | walk resolver entries => rfl
  | cancelWalk k => exact cancelWalk_remember past w k
  | release gate => rfl

/-- **Every run** goes on alike in a world that has logged more. -/
theorem run_remember (actions : List Action) :
    (w.remember past).run envs actions = (w.run envs actions).remember past := by
  induction actions generalizing w with
  | nil => rfl
  | cons a rest ih =>
    have first := apply_remember past w envs a
    simp only [run, List.foldl_cons] at ih ⊢
    rw [first, ih]

/-! ## What a refused request leaves behind -/

/-- The request for a name is refused for this reason. -/
inductive Refuses (env : Environment) (w : World) (name : String) : Refusal → Prop
  | notAdded (missing : w.store.find? name = none) : Refuses env w name (.notAdded name)
  | unreadable {r : Record} {cause : Cause} (found : w.store.find? name = some r)
    (fresh : r.cell.stage = .unstarted) (raised : env.extract r.text = .error cause) :
    Refuses env w name (.unreadable cause)
  | noLoop {r : Record} (found : w.store.find? name = some r)
    (fresh : r.cell.stage = .unstarted) : Refuses env w name .noLoop

/-- What is logged while a text is read; no call is among it. -/
def Reads (events : List Event) : Prop :=
  ∀ e ∈ events, (∃ n, e = .notice n) ∨ ∃ id text, e = .extracting id text

variable {env w} {w' : World} {refusal : Refusal} {resolver : Nat} {name : String}
  {listener : Option WalkRef}

theorem read_eq (w : World) (id : FileId) (text : String) :
    ∃ events, Reads events ∧ w.read id text = w.record events := by
  refine ⟨[.notice (.starting id.name), .extracting id text], ?_, by simp [read, note, record]⟩
  intro e he
  simp only [List.mem_cons, List.not_mem_nil, or_false] at he
  rcases he with rfl | rfl
  · exact .inl ⟨_, rfl⟩
  · exact .inr ⟨_, _, rfl⟩

theorem read_record_eq (w : World) (id : FileId) (text : String) (notices : List Notice) :
    ∃ events, Reads events ∧
      (w.read id text).record (notices.map .notice) = w.record events := by
  obtain ⟨events, reads, eq⟩ := w.read_eq id text
  refine ⟨events ++ notices.map .notice, fun e he => ?_, by simp [eq, record]⟩
  rcases List.mem_append.1 he with he | he
  · exact reads e he
  · obtain ⟨n, -, rfl⟩ := List.mem_map.1 he
    exact .inl ⟨n, rfl⟩

theorem refused_resolve
    (h : w.resolve env resolver name listener = (w', .error refusal)) :
    w.Refuses env name refusal ∧ ∃ events, Reads events ∧ w' = w.record events := by
  rcases resolve_spec env w resolver name listener with ⟨missing, eq⟩ | ⟨id, r, current, recorded,
    ⟨fresh, cause, raised, eq⟩ | ⟨-, found, notices, -, eq⟩ | ⟨-, eq⟩⟩
  · rw [h] at eq
    cases eq
    exact ⟨.notAdded missing, [], by simp [Reads], by simp [record]⟩
  · rw [h] at eq
    cases eq
    exact ⟨.unreadable ((Store.find?_eq current).trans recorded) fresh raised, w.read_eq id r.text⟩
  · rw [h] at eq
    cases eq
  · rw [h] at eq
    cases eq

theorem refused_resolveWithoutLoop
    (h : w.resolveWithoutLoop env name listener = (w', .error refusal)) :
    w.Refuses env name refusal ∧ ∃ events, Reads events ∧ w' = w.record events := by
  rcases resolveWithoutLoop_spec env w name listener with ⟨missing, eq⟩ | ⟨id, r, current, recorded,
    ⟨fresh, cause, raised, eq⟩ | ⟨fresh, found, notices, -, eq⟩ | ⟨-, eq⟩⟩
  · rw [h] at eq
    cases eq
    exact ⟨.notAdded missing, [], by simp [Reads], by simp [record]⟩
  · rw [h] at eq
    cases eq
    exact ⟨.unreadable ((Store.find?_eq current).trans recorded) fresh raised, w.read_eq id r.text⟩
  · rw [h] at eq
    cases eq
    exact ⟨.noLoop ((Store.find?_eq current).trans recorded) fresh,
      w.read_record_eq id r.text notices⟩
  · rw [h] at eq
    cases eq

/-- **A refused request changes nothing**, in whatever state it is made. The world that it leaves
differs in what was logged while the text was read, and no call is among that: the store with all its
records, the registries, the walks and what is due are the same. Whatever is done from then on, by
whatever functions, is done as if the request had not been made; later requests are answered alike,
those for the same name too. -/
theorem refused_changes_nothing
    (h : w.resolve env resolver name listener = (w', .error refusal) ∨
      w.resolveWithoutLoop env name listener = (w', .error refusal)) :
    w.Refuses env name refusal ∧
      ∃ events, Reads events ∧ w' = { w with log := w.log ++ events } ∧
        ∀ envs actions, ∃ later, (w.run envs actions).log = w.log ++ later ∧
          w'.run envs actions = { w.run envs actions with log := w.log ++ events ++ later } ∧
          ∀ env resolver name listener,
            ((w'.run envs actions).resolve env resolver name listener).2 =
              ((w.run envs actions).resolve env resolver name listener).2 ∧
            ((w'.run envs actions).resolveWithoutLoop env name listener).2 =
              ((w.run envs actions).resolveWithoutLoop env name listener).2 := by
  obtain ⟨refuses, events, reads, rfl⟩ := h.elim refused_resolve refused_resolveWithoutLoop
  refine ⟨refuses, events, reads, rfl, fun envs actions => ?_⟩
  -- Both runs are the run of a world with an empty log, each with a past of its own.
  let silent : World := { w with log := [] }
  have past : w = silent.remember w.log := by simp [silent, remember]
  have past' : w.record events = silent.remember (w.log ++ events) := by
    simp [silent, remember, record]
  have runs := run_remember w.log silent envs actions
  have runs' := run_remember (w.log ++ events) silent envs actions
  rw [← past] at runs
  rw [← past'] at runs'
  refine ⟨(silent.run envs actions).log, ?_, ?_, fun env resolver name listener => ?_⟩
  · rw [runs]
    rfl
  · rw [runs, runs']
    rfl
  · rw [runs, runs', resolve_remember, resolve_remember, resolveWithoutLoop_remember,
      resolveWithoutLoop_remember]
    exact ⟨rfl, rfl⟩

/-- Two files were added, and one of them is being resolved. -/
def oneUnderWay : World :=
  (initial {} defaultLibName fun _ => {}).run oneReference
    [.add "a" "", .add "b" "", .resolve 0 "b", .tick]

/-- The other is asked for where no loop is running; asked for again, it is resolved as if for the
first time. -/
theorem refused_changes_nothing_without_loop :
    (oneUnderWay.resolveWithoutLoop (oneReference 0) "a" none).2.toOption = none ∧
      ∀ w', (oneUnderWay.resolveWithoutLoop (oneReference 0) "a" none).1 = w' →
        ((w'.run oneReference ([.resolve 0 "a", .release "g"] ++ List.replicate 14 .tick)).store.find?
          "a").map (·.cell.state) = some .done := by
  have none : (oneUnderWay.resolveWithoutLoop (oneReference 0) "a" none).2.toOption = .none := by
    decide +kernel
  have done : ((oneUnderWay.run oneReference
      ([.resolve 0 "a", .release "g"] ++ List.replicate 14 .tick)).store.find? "a").map
        (·.cell.state) = some .done := by
    decide +kernel
  refine ⟨none, fun w' left => ?_⟩
  cases answer : (oneUnderWay.resolveWithoutLoop (oneReference 0) "a" .none).2 with
  | ok waiter =>
    rw [answer] at none
    cases none
  | error refusal =>
    have refused : oneUnderWay.resolveWithoutLoop (oneReference 0) "a" .none =
        (w', .error refusal) := Prod.ext left answer
    obtain ⟨-, events, -, -, goesOn⟩ := @refused_changes_nothing oneUnderWay (oneReference 0) w'
      refusal 0 "a" .none (.inr refused)
    obtain ⟨later, -, eq, -⟩ :=
      goesOn oneReference ([.resolve 0 "a", .release "g"] ++ List.replicate 14 .tick)
    rw [eq]
    exact done

end DepGraph.World
