import DepGraph.Proofs.Heedless
import DepGraph.Proofs.Overlap

/-!
# What is done to one file

Of all that happens in a world, only part concerns a given file: its own jobs, the requests that
find it, what is registered and which gates open. `World.dealings` says what an action of a run does
to a file, as actions on this file alone, whoever asks for it. The lane of the file is what these
make of it.

* `World.dealings`, `World.allDealings` — what an action does to a file, and what a list of them
  does.
* `World.additions` — the files that an action adds.
* `World.lane?_apply_dealings`, `World.lane?_run_dealings` — a lane after an action and after a run.
-/

set_option autoImplicit false

namespace DepGraph

namespace World

variable {env : Environment} {envs : Nat → Environment} {w : World} {id : FileId} {l : Lane}
  {options : Options} {name : String}

/-! ## Requests -/

/-- **A request that finds the file** is a request on its lane. -/
theorem lane?_resolve (hl : w.lane? id = some l) (hid : w.store.current? name = some id)
    (env : Environment) (resolver : Nat) (listener : Option WalkRef) :
    (w.resolve env resolver name listener).1.lane? id =
      some (l.request env w.store.options resolver id listener) := by
  obtain ⟨hr, -, -⟩ := lane?_eq_some.mp hl
  by_cases hs : l.record.cell.stage = .unstarted
  · cases he : env.extract l.record.text with
    | error cause =>
      rw [resolve_unreadable hid hr hs he, lane?_read w id _ hl, if_pos rfl]
      simp [Lane.request, hs, he]
    | ok result =>
      obtain ⟨found, notices⟩ := result
      have hbegin := lane?_begin env w resolver id l.record.text found notices hl fun _ => rfl
      rw [if_pos rfl] at hbegin
      rw [resolve_first hid hr hs he, lane?_join _ id listener hbegin, if_pos rfl]
      simp [Lane.request, hs, he]
  · rw [resolve_later hid hr hs, lane?_join w id listener hl, if_pos rfl]
    unfold Lane.request
    split <;> simp_all

theorem lane?_resolveWithoutLoop (hl : w.lane? id = some l)
    (hid : w.store.current? name = some id) (env : Environment) :
    (w.resolveWithoutLoop env name none).1.lane? id = some (l.requestWithoutLoop id) := by
  obtain ⟨hr, -, -⟩ := lane?_eq_some.mp hl
  have hread := (lane?_read w id l.record.text hl).trans (if_pos rfl)
  rcases resolveWithoutLoop_spec env w name none with
    ⟨hnone, -⟩ | ⟨id', r, hid', hr', hcases⟩
  · rw [Store.find?_eq hid, hr] at hnone
    cases hnone
  obtain rfl := Option.some.inj (hid.symm.trans hid')
  obtain rfl := Option.some.inj (hr.symm.trans hr')
  unfold Lane.requestWithoutLoop
  rcases hcases with ⟨hs, cause, -, h⟩ | ⟨hs, found, notices, -, h⟩ | ⟨hs, h⟩ <;> rw [h]
  · rw [hread]
    simp [hs]
  · refine Eq.trans ((aside_record (by simp)).lane? id) (hread.trans ?_)
    simp [hs]
  · refine (lane?_join w id none hl).trans ((if_pos rfl).trans ?_)
    split
    · rename_i hunstarted
      exact absurd hunstarted hs
    · rfl

theorem lane?_resolveWithoutLoop_other (hl : w.lane? id = some l)
    (hid : w.store.current? name ≠ some id) (env : Environment) :
    (w.resolveWithoutLoop env name none).1.lane? id = some l := by
  rcases resolveWithoutLoop_spec env w name none with ⟨-, h⟩ | ⟨current, r, hcurrent, hr, hcases⟩
  · rw [h]
    exact hl
  have hne : id ≠ current := by
    rintro rfl
    exact hid hcurrent
  have hread := (lane?_read w current r.text hl).trans (if_neg hne)
  rcases hcases with ⟨_, cause, _, h⟩ | ⟨_, found, notices, _, h⟩ | ⟨_, h⟩ <;> rw [h]
  · exact hread
  · exact Eq.trans ((aside_record (by simp)).lane? id) hread
  · exact (lane?_join w current none hl).trans (if_neg hne)

theorem lane?_giveUp (hl : w.lane? id = some l) (other : FileId) (waiter : Nat) :
    (w.giveUp other waiter).lane? id =
      if other = id then some (l.setCell (l.record.cell.giveUp waiter).1) else some l := by
  obtain ⟨hr, -, -⟩ := lane?_eq_some.mp hl
  unfold giveUp
  by_cases h : other = id
  · subst h
    simp only [hr, if_true, lane?_alert, lane?_modifyFile, hl]
    rfl
  · rw [if_neg h]
    split
    · exact hl
    · simp only [lane?_alert, lane?_modifyFile, if_neg (Ne.symm h), hl]

theorem lane?_setText (hl : w.lane? id = some l) (name text : String) :
    (w.setText name text).lane? id =
      if w.store.current? name = some id then some { l with record := { l.record with text } }
      else some l := by
  unfold setText
  cases hid : w.store.current? name with
  | none => simpa using hl
  | some current =>
    simp only [lane?_modifyFile, hl, Option.some.injEq, eq_comm (a := id)]
    rfl

/-! ## The requests of a walk -/

/-- The requests for a file that a walk makes when it asks for files one after the other, until one
is refused. -/
def roundRequests (env : Environment) (id : FileId) (resolver walk : Nat) :
    Nat → World → List String → List Action
  | _, _, [] => []
  | place, w, name :: rest =>
    (if w.store.current? name = some id then [.resolve resolver name] else []) ++
      match w.resolve env resolver name (some ⟨walk, place⟩) with
      | (_, .error _) => []
      | (w, .ok _) => roundRequests env id resolver walk (place + 1) w rest

/-- The requests for a file that a job of a walk makes: the files of a round are asked for when the
store knows all of them, or when the texts of those that it did not know have come. -/
def walkRequests (envs : Nat → Environment) (id : FileId) (w : World) (k : Nat) (job : WalkJob) :
    List Action :=
  match w.walks[k]? with
  | none => []
  | some x =>
    if x.stopping then []
    else
      match job with
      | .start =>
        if x.pending.all w.store.contains then
          roundRequests (envs x.resolver) id x.resolver k 0 w x.pending
        else []
      | .fetch .wake | .wake =>
        match x.phase, x.fetches.tally.verdict with
        | .fetching missing, some (.returned texts) =>
          let w := (missing.zip texts).foldl (fun w (name, text) => w.add name text) w
          roundRequests (envs x.resolver) id x.resolver k 0 w x.pending
        | _, _ => []
      | _ => []

/-- The waiters of a file that give up when a walk is cancelled. -/
def walkGiveUps (id : FileId) (w : World) (k : Nat) : List Action :=
  match (w.walks[k]?).map Walk.phase with
  | some (.resolving waiters tally) =>
    if tally.verdict.isSome then []
    else ((waiters.filter fun p => (w.outcome? p.1 p.2).isNone).filter (·.1 = id)).map fun p =>
      .giveUp id p.2
  | _ => []

/-- **What an action does to a file**, as actions on this file alone: a tick is a turn of the file,
or brings the requests of a walk; a request counts if it finds the file. -/
def dealings (envs : Nat → Environment) (id : FileId) (w : World) : Action → List Action
  | .tick =>
    match w.loop.next? with
    | none => []
    | some (.file other _, _) => if other = id then [.tick] else []
    | some (.walk k job, loop) => walkRequests envs id { w with loop } k job
  | .add .. | .walk .. => []
  | .setText name text => if w.store.current? name = some id then [.setText name text] else []
  | .register resolver address => [.register resolver address]
  | .resolve resolver name =>
    if w.store.current? name = some id then [.resolve resolver name] else []
  | .resolveWithoutLoop resolver name =>
    if w.store.current? name = some id then [.resolveWithoutLoop resolver name] else []
  | .giveUp other waiter => if other = id then [.giveUp other waiter] else []
  | .cancelWalk k => walkGiveUps id w k
  | .release gate => [.release gate]

/-- What a list of actions does to a file. -/
def allDealings (envs : Nat → Environment) (id : FileId) : World → List Action → List Action
  | _, [] => []
  | w, a :: rest => w.dealings envs id a ++ allDealings envs id (w.apply envs a) rest

theorem allDealings_append (envs : Nat → Environment) (id : FileId) (w : World)
    (before after : List Action) : allDealings envs id w (before ++ after) =
      allDealings envs id w before ++ allDealings envs id (w.run envs before) after := by
  induction before generalizing w with
  | nil => rfl
  | cons a rest ih =>
    simp only [List.cons_append, allDealings, ih, List.append_assoc]
    rfl

/-- The files that a job of a walk adds: those whose texts have come. -/
def walkAdditions (w : World) (k : Nat) (job : WalkJob) : List (String × String) :=
  match w.walks[k]? with
  | none => []
  | some x =>
    if x.stopping then []
    else
      match job with
      | .fetch .wake | .wake =>
        match x.phase, x.fetches.tally.verdict with
        | .fetching missing, some (.returned texts) => missing.zip texts
        | _, _ => []
      | _ => []

/-- **The files that an action adds**, each with its text, in order. -/
def additions (w : World) : Action → List (String × String)
  | .add name text => [(name, text)]
  | .tick =>
    match w.loop.next? with
    | some (.walk k job, _) => w.walkAdditions k job
    | _ => []
  | _ => []

/-! ## A lane after a job of a walk -/

/-- The lane after an action is what the given dealings make of it. -/
def Deals (envs : Nat → Environment) (options : Options) (id : FileId) (l : Lane) (w' : World)
    (dealt : List Action) : Prop :=
  ∃ l', w'.lane? id = some l' ∧ ∀ registries,
    l'.heedless = Lane.dealAll envs options id registries l.heedless dealt

theorem deals_nil {w' : World} (h : w'.lane? id = some l) : Deals envs options id l w' [] :=
  ⟨l, h, fun _ => rfl⟩

theorem deals_resolveAll (envs : Nat → Environment) (hl : w.lane? id = some l)
    (resolver k place : Nat) (names : List String) :
    Deals envs w.store.options id l
      (resolveAll (envs resolver) resolver k place w names).1
      (roundRequests (envs resolver) id resolver k place w names) := by
  induction names generalizing w l place with
  | nil => exact deals_nil hl
  | cons name rest ih =>
    -- The lane after the first request.
    obtain ⟨l₁, hl₁, hfirst⟩ : Deals envs w.store.options id l
        (w.resolve (envs resolver) resolver name (some ⟨k, place⟩)).1
        (if w.store.current? name = some id then [.resolve resolver name] else []) := by
      by_cases hid : w.store.current? name = some id
      · rw [if_pos hid]
        exact ⟨_, lane?_resolve hl hid _ _ _, fun _ => Lane.request_heedless _ _ _ _ _ _⟩
      · rw [if_neg hid]
        exact deals_nil (lane?_resolve_other _ w hl hid)
    have hoptions := (kept_resolve (envs resolver) w resolver name (some ⟨k, place⟩)).options
    unfold resolveAll roundRequests
    rcases heq : w.resolve (envs resolver) resolver name (some ⟨k, place⟩) with
      ⟨w₁, refusal | waiter⟩
    · rw [heq] at hl₁
      simp only [List.append_nil]
      exact ⟨l₁, hl₁, hfirst⟩
    · rw [heq] at hl₁ hoptions
      simp only
      obtain ⟨l₂, hl₂, hrest⟩ := ih hl₁ (place + 1)
      rw [hoptions] at hrest
      have hboth : ∀ registries, l₂.heedless = Lane.dealAll envs w.store.options id registries
          l.heedless ((if w.store.current? name = some id then [.resolve resolver name] else []) ++
            roundRequests (envs resolver) id resolver k (place + 1) w₁ rest) := by
        intro registries
        rw [Lane.dealAll_append, ← hfirst]
        exact hrest _
      split <;> rename_i heq' <;> rw [heq'] at hl₂ <;> exact ⟨l₂, hl₂, hboth⟩

theorem deals_resolveRound (envs : Nat → Environment) (hl : w.lane? id = some l) (k : Nat)
    (x : Walk) :
    Deals envs w.store.options id l (w.resolveRound (envs x.resolver) k x)
      (roundRequests (envs x.resolver) id x.resolver k 0 w x.pending) := by
  obtain ⟨l', hl', hdealt⟩ := deals_resolveAll envs hl x.resolver k 0 x.pending
  refine ⟨l', ?_, hdealt⟩
  refine resolveRound_cases (P := fun w' => w'.lane? id = some l') (fun w₁ refusal heq => ?_)
    fun w₁ waiters heq => ?_ <;> rw [heq] at hl'
  · exact hl'
  · exact ((aside_postAll_walk _ k _).lane? id).trans hl'

theorem lane?_fetchLaunch (w : World) (k : Nat) (join : Join Event Cause String) (id : FileId) :
    ({ w with loop := (join.perform (fun j => Job.walk k (.fetch j)) w.loop .launch).2.1 } :
      World).lane? id = w.lane? id :=
  lane?_congr rfl (Join.perform_select_none (fun j => Job.of?_walk id k (.fetch j)) w.loop join
    .launch) rfl

/-- A round asks at once for its files if the store knows all of them. -/
theorem deals_startRound (envs : Nat → Environment) (hl : w.lane? id = some l) (k : Nat)
    (x : Walk) :
    Deals envs w.store.options id l (w.startRound (envs x.resolver) k x)
      (if x.pending.all w.store.contains then
        roundRequests (envs x.resolver) id x.resolver k 0 w x.pending else []) := by
  refine startRound_cases (P := fun w' => Deals envs w.store.options id l w' _) (fun hnil => ?_)
    (fun _ hknown => ?_) fun _ missing hmissing hsome => ?_
  · rw [hnil]
    exact deals_nil hl
  · rw [if_pos (List.all_eq_true.mpr hknown)]
    exact deals_resolveRound envs hl k x
  · have hlacks : ¬x.pending.all w.store.contains := fun hall =>
      hsome (hmissing.trans (List.filter_eq_nil_iff.mpr fun name hname => by
        simp [List.all_eq_true.mp hall name hname]))
    rw [if_neg hlacks]
    exact deals_nil ((lane?_fetchLaunch w k (Join.ofScripts _) id).trans hl)

theorem lane?_addAll (files : List (String × String)) (hl : w.lane? id = some l) :
    (files.foldl (fun w (name, text) => w.add name text) w).lane? id = some l := by
  induction files generalizing w with
  | nil => exact hl
  | cons file rest ih => exact ih (lane?_add w file.1 file.2 hl)

/-- The job that is due first has no part in the adding of files. -/
theorem lane?_addAll_pop {k : Nat} {job : WalkJob} {loop : Loop Job}
    (h : w.loop.next? = some (.walk k job, loop)) (files : List (String × String)) (id : FileId) :
    (files.foldl (fun w (name, text) => w.add name text) ({ w with loop } : World)).lane? id =
      (files.foldl (fun w (name, text) => w.add name text) w).lane? id := by
  have hadd : ∀ v : World, v.loop = w.loop →
      files.foldl (fun w (name, text) => w.add name text) ({ v with loop } : World) =
        { files.foldl (fun w (name, text) => w.add name text) v with loop } ∧
      (files.foldl (fun w (name, text) => w.add name text) v).loop = w.loop := by
    induction files with
    | nil => exact fun v hv => ⟨rfl, hv⟩
    | cons file rest ih =>
      intro v hv
      have hfirst : ({ v with loop } : World).add file.1 file.2 =
          { v.add file.1 file.2 with loop } ∧ (v.add file.1 file.2).loop = v.loop := by
        cases hc : v.store.contains file.1 <;> simp [World.add, hc, note, record]
      obtain ⟨hrest, hloop⟩ := ih (v.add file.1 file.2) (hfirst.2.trans hv)
      refine ⟨?_, hloop⟩
      exact (congrArg (List.foldl (fun w (name, text) => w.add name text) · rest) hfirst.1).trans
        hrest
  obtain ⟨hsame, hloop⟩ := hadd w rfl
  rw [hsame]
  exact lane?_pop (hloop ▸ h) rfl

theorem options_addAll (files : List (String × String)) (w : World) :
    (files.foldl (fun w (name, text) => w.add name text) w).store.options = w.store.options := by
  induction files generalizing w with
  | nil => rfl
  | cons file rest ih => exact (ih _).trans (by rw [store_add]; rfl)

/-- The files of the next round are not known, so none of them is asked for before it is added. -/
theorem deals_finishRound (hl : w.lane? id = some l) (k : Nat) (x : Walk)
    (infos : List Dependencies) :
    Deals envs w.store.options id l (w.finishRound (envs x.resolver) k x infos) [] := by
  unfold finishRound
  simp only
  generalize hnext : ({ x with
    visited := Dependencies.distinct (x.visited ++ x.pending)
    pending := w.unfetched infos
    round := x.round + 1 } : Walk) = next
  generalize Notice.walked x.pending.length (w.unfetched infos).length = notice
  have hresolver : next.resolver = x.resolver := by rw [← hnext]
  have hlane : ((w.note notice).modifyWalk k fun _ => next).lane? id = some l :=
    ((aside_note w notice).lane? id).trans hl
  have hround := deals_startRound envs hlane k next
  rw [hresolver] at hround
  refine hround.imp fun l' h => ?_
  have hnone : (if next.pending.all ((w.note notice).modifyWalk k fun _ => next).store.contains
      then roundRequests (envs x.resolver) id x.resolver k 0
        ((w.note notice).modifyWalk k fun _ => next) next.pending else []) = [] := by
    split
    · rename_i hall
      have hnil : next.pending = [] := by
        refine List.eq_nil_iff_forall_not_mem.mpr fun name hname => ?_
        have hknown : w.store.contains name = true := List.all_eq_true.mp hall name hname
        rw [← hnext] at hname
        rw [(mem_unfetched.mp hname).2] at hknown
        cases hknown
      rw [hnil]
      rfl
    · rfl
  rw [hnone] at h
  exact h

/-- The texts that a walk waits for concern no file. -/
theorem deals_fetch (envs : Nat → Environment) (hw : w.ProperWalks) (hl : w.lane? id = some l)
    (env : Environment) (k : Nat) {job : JoinJob} (hjob : job ≠ .wake) :
    Deals envs w.store.options id l (w.performWalk env k (.fetch job))
      (walkRequests envs id w k (.fetch job)) := by
  have hlane : (w.performWalk env k (.fetch job)).lane? id = w.lane? id := by
    cases hx : w.walks[k]? with
    | none => simp [performWalk, hx]
    | some x =>
      rw [performWalk_fetch hx hjob]
      exact (aside_fetch hw hx job).lane? id
  have hnone : walkRequests envs id w k (.fetch job) = [] := by
    unfold walkRequests
    cases job with
    | wake => exact absurd rfl hjob
    | _ => split <;> simp
  rw [hnone]
  exact deals_nil (hlane.trans hl)

/-- Nor does what a walk hears. -/
theorem deals_resolved (envs : Nat → Environment) (hl : w.lane? id = some l) (env : Environment)
    (k place : Nat) :
    Deals envs w.store.options id l (w.performWalk env k (.resolved place))
      (walkRequests envs id w k (.resolved place)) := by
  have hlane : (w.performWalk env k (.resolved place)).lane? id = w.lane? id := by
    unfold performWalk
    cases w.walks[k]? with
    | none => rfl
    | some x =>
      exact hearWalk_cases (P := fun w' => w'.lane? id = w.lane? id) rfl
        fun _ _ _ _ _ => ⟨rfl, (aside_post_walk _ k .wake).lane? id⟩
  have hnone : walkRequests envs id w k (.resolved place) = [] := by
    unfold walkRequests
    split <;> simp
  rw [hnone]
  exact deals_nil (hlane.trans hl)

theorem deals_wakeWalk (envs : Nat → Environment) {x : Walk} {k : Nat} (hx : w.walks[k]? = some x)
    (hl : ((w.walkAdditions k .wake).foldl (fun w (name, text) => w.add name text) w).lane? id =
      some l) :
    Deals envs w.store.options id l (w.wakeWalk (envs x.resolver) k x)
      (walkRequests envs id w k .wake) := by
  simp only [walkAdditions, hx] at hl
  simp only [walkRequests, hx]
  unfold wakeWalk
  split
  · rename_i hstopping
    rw [if_pos hstopping] at hl
    exact deals_nil hl
  · rename_i hgoing
    rw [if_neg hgoing] at hl
    cases hp : x.phase with
    | fetching missing =>
      cases hv : x.fetches.tally.verdict with
      | none =>
        rw [hp, hv] at hl
        exact deals_nil hl
      | some verdict =>
        rw [hp, hv] at hl
        cases verdict with
        | returned texts =>
          have hround := deals_resolveRound envs hl k x
          rw [options_addAll] at hround
          exact hround
        | raised cause => exact deals_nil hl
        | cancelled => exact deals_nil hl
    | resolving waiters tally =>
      rw [hp] at hl
      simp only
      split
      · exact deals_finishRound hl k x _
      · exact deals_nil hl
      · exact deals_nil hl
      · exact deals_nil hl
    | starting =>
      rw [hp] at hl
      exact deals_nil hl
    | finished =>
      rw [hp] at hl
      exact deals_nil hl

/-- **What a job of a walk does to a file**, once the files are added that it adds. -/
theorem deals_performWalk (envs : Nat → Environment) (hw : w.ProperWalks) (k : Nat) (job : WalkJob)
    (hl : ((w.walkAdditions k job).foldl (fun w (name, text) => w.add name text) w).lane? id =
      some l) :
    Deals envs w.store.options id l
      (w.performWalk (envs ((w.walks[k]?.map Walk.resolver).getD 0)) k job)
      (walkRequests envs id w k job) := by
  cases hx : w.walks[k]? with
  | none =>
    simp only [walkAdditions, hx] at hl
    simp only [performWalk, walkRequests, hx]
    exact deals_nil hl
  | some x =>
    have hsame : (∀ job', job ≠ .fetch job') → job ≠ .wake → w.lane? id = some l := by
      intro hfetch hwake
      simp only [walkAdditions, hx] at hl
      cases job with
      | fetch job => exact absurd rfl (hfetch job)
      | wake => exact absurd rfl hwake
      | _ => simpa using hl
    simp only [Option.map_some, Option.getD_some]
    cases job with
    | start =>
      have hl' := hsame (by simp) (by simp)
      simp only [performWalk, walkRequests, hx]
      split
      · exact deals_nil hl'
      · exact deals_startRound envs hl' k x
    | fetch job =>
      by_cases hjob : job = .wake
      · subst hjob
        have hwakes := deals_wakeWalk envs hx hl
        simp only [performWalk, hx]
        simp only [walkRequests, hx] at hwakes ⊢
        exact hwakes
      · have hnone : w.walkAdditions k (.fetch job) = [] := by
          cases job with
          | wake => exact absurd rfl hjob
          | _ => simp [walkAdditions, hx]
        rw [hnone] at hl
        exact deals_fetch envs hw hl _ k hjob
    | resolved place => exact deals_resolved envs (hsame (by simp) (by simp)) _ k place
    | wake =>
      simp only [performWalk, hx]
      exact deals_wakeWalk envs hx hl

/-! ## A lane after a cancellation -/

theorem deals_giveUps (hl : w.lane? id = some l) (given : List (FileId × Nat)) :
    Deals envs options id l (given.foldl (fun w p => w.giveUp p.1 p.2) w)
      ((given.filter (·.1 = id)).map fun p => .giveUp id p.2) := by
  induction given generalizing w l with
  | nil => exact deals_nil hl
  | cons p rest ih =>
    have hfirst := lane?_giveUp hl p.1 p.2
    by_cases hid : p.1 = id
    · rw [if_pos hid] at hfirst
      obtain ⟨l', hl', hrest⟩ := ih hfirst
      refine ⟨l', hl', fun registries => ?_⟩
      rw [List.filter_cons_of_pos (by simpa using hid), List.map_cons, Lane.dealAll, hrest]
      congr 1
      exact (Lane.setCell_heedless _ _).trans
        (congrArg l.heedless.setCell (Cell.settleWaiter_heedless _ _ _))
    · rw [if_neg hid] at hfirst
      rw [List.filter_cons_of_neg (by simpa using hid)]
      exact ih hfirst

theorem deals_cancelWaiters (hl : w.lane? id = some l) (waiters : List (FileId × Nat))
    (tally : Tally Fault Dependencies) :
    Deals envs options id l (w.cancelWaiters waiters tally).1
      (if tally.verdict.isSome then []
      else ((waiters.filter fun p => (w.outcome? p.1 p.2).isNone).filter (·.1 = id)).map fun p =>
        .giveUp id p.2) := by
  unfold cancelWaiters
  by_cases hv : tally.verdict.isSome
  · simp only [hv, true_or, if_true]
    exact deals_nil hl
  · simp only [hv, Bool.false_eq_true, false_or, if_false]
    split
    · rename_i hnone
      rw [List.isEmpty_iff.mp hnone]
      exact deals_nil hl
    · exact deals_giveUps hl _

theorem deals_cancelWalk (envs : Nat → Environment) (hl : w.lane? id = some l) (k : Nat) :
    Deals envs options id l (w.cancelWalk k) (walkGiveUps id w k) := by
  have hstops : ∀ (w' : World) (taken : Bool) (dealt : List Action),
      Deals envs options id l w' dealt →
      Deals envs options id l
        (if taken then w' else w'.modifyWalk k fun x => { x with stopping := true }) dealt := by
    intro w' taken dealt h
    split
    · exact h
    · exact h
  unfold cancelWalk walkGiveUps
  cases hx : w.walks[k]? with
  | none => exact deals_nil hl
  | some x =>
    simp only [Option.map_some]
    cases hp : x.phase with
    | starting => exact hstops w false _ (deals_nil hl)
    | fetching missing =>
      exact hstops _ _ _ (deals_nil (((aside_cancelFetches hx).lane? id).trans hl))
    | resolving waiters tally =>
      exact hstops _ _ _ (deals_cancelWaiters hl waiters tally)
    | finished => exact hstops w true _ (deals_nil hl)

/-! ## A lane after an action and after a run -/

/-- What an action makes of a lane, once the files are added that it adds. -/
theorem lane?_apply_added (envs : Nat → Environment) (hw : w.Tidy) (a : Action)
    (hl : ((w.additions a).foldl (fun w (name, text) => w.add name text) w).lane? id = some l) :
    ∃ l', (w.apply envs a).lane? id = some l' ∧
      l'.heedless = Lane.dealAll envs w.store.options id w.registries l.heedless
        (w.dealings envs id a) := by
  have hnothing : ∀ w' : World, w'.lane? id = some l → ∃ l', w'.lane? id = some l' ∧
      l'.heedless = Lane.dealAll envs w.store.options id w.registries l.heedless [] :=
    fun w' h => ⟨l, h, rfl⟩
  cases a with
  | tick =>
    simp only [apply, tick, dealings]
    simp only [additions] at hl
    cases hnext : w.loop.next? with
    | none =>
      rw [hnext] at hl
      exact hnothing w hl
    | some p =>
      obtain ⟨job, loop⟩ := p
      rw [hnext] at hl
      cases job with
      | file other job =>
        by_cases hid : other = id
        · subst hid
          simp only [if_true]
          exact ⟨_, lane?_performFile hnext hl, Lane.turn_heedless _ _ _⟩
        · simp only [hid, if_false]
          exact hnothing _ ((lane?_performFile_other hw hnext hid).trans hl)
      | walk k job =>
        have hpopped := (lane?_addAll_pop hnext (w.walkAdditions k job) id).trans hl
        obtain ⟨l', hl', hdealt⟩ := deals_performWalk envs (w := { w with loop }) hw.walks k job
          hpopped
        exact ⟨l', hl', hdealt _⟩
  | add name text => exact hnothing _ hl
  | setText name text =>
    replace hl : w.lane? id = some l := hl
    simp only [apply, dealings, lane?_setText hl]
    split
    · exact ⟨_, rfl, rfl⟩
    · exact ⟨_, rfl, rfl⟩
  | register resolver address =>
    exact ⟨l, ((aside_note _ _).lane? id).trans hl, rfl⟩
  | resolve resolver name =>
    simp only [apply, dealings]
    split
    · rename_i hid
      exact ⟨_, lane?_resolve hl hid _ _ _, Lane.request_heedless _ _ _ _ _ _⟩
    · rename_i hid
      exact hnothing _ (lane?_resolve_other _ w hl hid)
  | resolveWithoutLoop resolver name =>
    simp only [apply, dealings]
    split
    · rename_i hid
      exact ⟨_, lane?_resolveWithoutLoop hl hid _, Lane.requestWithoutLoop_heedless id l⟩
    · rename_i hid
      exact hnothing _ (lane?_resolveWithoutLoop_other hl hid _)
  | giveUp other waiter =>
    replace hl : w.lane? id = some l := hl
    simp only [apply, dealings, lane?_giveUp hl]
    split
    · exact ⟨_, rfl, (Lane.setCell_heedless _ _).trans
        (congrArg l.heedless.setCell (Cell.settleWaiter_heedless _ _ _))⟩
    · exact ⟨l, rfl, rfl⟩
  | walk resolver entries => exact hnothing _ (((aside_walk w resolver entries).lane? id).trans hl)
  | cancelWalk k =>
    obtain ⟨l', hl', hdealt⟩ := deals_cancelWalk envs hl k
    exact ⟨l', hl', hdealt _⟩
  | release gate =>
    replace hl : w.lane? id = some l := hl
    exact ⟨_, by rw [apply, lane?_release, hl]; rfl, rfl⟩

/-- **What an action makes of a lane.** -/
theorem lane?_apply_dealings (envs : Nat → Environment) (hw : w.Tidy) (hl : w.lane? id = some l)
    (a : Action) : ∃ l', (w.apply envs a).lane? id = some l' ∧
      l'.heedless = Lane.dealAll envs w.store.options id w.registries l.heedless
        (w.dealings envs id a) :=
  lane?_apply_added envs hw a (lane?_addAll _ hl)

theorem mem_roundRequests {resolver k place : Nat} {names : List String} {b : Action}
    (h : b ∈ roundRequests env id resolver k place w names) : b = .resolve resolver id.name := by
  induction names generalizing w place with
  | nil => cases h
  | cons name rest ih =>
    unfold roundRequests at h
    rcases List.mem_append.mp h with h | h
    · split at h
      · rename_i hid
        rw [Store.current?_name hid]
        exact List.mem_singleton.mp h
      · cases h
    · split at h
      · cases h
      · exact ih h

theorem mem_walkRequests {k : Nat} {job : WalkJob} {b : Action}
    (h : b ∈ walkRequests envs id w k job) : ∃ resolver, b = .resolve resolver id.name := by
  unfold walkRequests at h
  split at h
  · cases h
  · split at h
    · cases h
    · split at h
      · split at h
        · exact ⟨_, mem_roundRequests h⟩
        · cases h
      · split at h
        · exact ⟨_, mem_roundRequests h⟩
        · cases h
      · split at h
        · exact ⟨_, mem_roundRequests h⟩
        · cases h
      · cases h

theorem mem_walkGiveUps {k : Nat} {b : Action} (h : b ∈ walkGiveUps id w k) :
    ∃ waiter, b = .giveUp id waiter := by
  unfold walkGiveUps at h
  split at h
  · split at h
    · cases h
    · obtain ⟨p, -, rfl⟩ := List.mem_map.mp h
      exact ⟨p.2, rfl⟩
  · cases h

/-- What an action does to a file is the action itself, a request of a walk, or the giving up of a
waiter of the file. -/
theorem mem_dealings {a b : Action} (h : b ∈ w.dealings envs id a) :
    b = a ∨ (a = .tick ∧ ∃ resolver, b = .resolve resolver id.name) ∨
      (∃ k, a = .cancelWalk k) ∧ ∃ waiter, b = .giveUp id waiter := by
  cases a with
  | tick =>
    simp only [dealings] at h
    split at h
    · cases h
    · split at h
      · exact .inl (List.mem_singleton.mp h)
      · cases h
    · exact .inr (.inl ⟨rfl, mem_walkRequests h⟩)
  | add | walk => cases h
  | register | release => exact .inl (List.mem_singleton.mp h)
  | cancelWalk k => exact .inr (.inr ⟨⟨k, rfl⟩, mem_walkGiveUps h⟩)
  | _ =>
    simp only [dealings] at h
    split at h
    · exact .inl (List.mem_singleton.mp h)
    · cases h

/-- What is registered by an action is part of what it does to every file. -/
theorem declarations_dealings (envs : Nat → Environment) (id : FileId) (w : World) (a : Action)
    (k : Nat) : declarations k (w.dealings envs id a) = declarations k [a] := by
  by_cases ha : ∃ resolver address, a = .register resolver address
  · obtain ⟨resolver, address, rfl⟩ := ha
    rfl
  · have hnot : ∀ address, .register k address ≠ a := fun address h => ha ⟨k, address, h.symm⟩
    have hnone : declarations k [a] = [] := List.eq_nil_iff_forall_not_mem.mpr fun address h =>
      hnot address (List.mem_singleton.mp (mem_declarations.mp h))
    rw [hnone]
    refine List.eq_nil_iff_forall_not_mem.mpr fun address h => ?_
    rcases mem_dealings (mem_declarations.mp h) with h | ⟨-, _, h⟩ | ⟨-, _, h⟩
    · exact hnot address h
    · cases h
    · cases h

/-- What the actions after the first make of a lane adds to what the first has made of it. -/
theorem dealAll_cons (hw : w.Tidy) (a : Action) (rest : List Action) (l : Lane) :
    Lane.dealAll envs w.store.options id w.registries l (allDealings envs id w (a :: rest)) =
      Lane.dealAll envs (w.apply envs a).store.options id (w.apply envs a).registries
        (Lane.dealAll envs w.store.options id w.registries l (w.dealings envs id a))
        (allDealings envs id (w.apply envs a) rest) := by
  have hregistries : (w.apply envs a).registries = fun k =>
      (w.registries k).registerAll (declarations k (w.dealings envs id a)) := by
    funext k
    rw [registries_apply hw, declarations_dealings]
  rw [allDealings, Lane.dealAll_append, options_apply hw, hregistries]

/-- **What a run makes of a lane.** -/
theorem lane?_run_dealings (envs : Nat → Environment) (hw : w.Tidy) (hl : w.lane? id = some l)
    (actions : List Action) : ∃ l', (w.run envs actions).lane? id = some l' ∧
      l'.heedless = Lane.dealAll envs w.store.options id w.registries l.heedless
        (allDealings envs id w actions) := by
  induction actions generalizing w l with
  | nil => exact ⟨l, hl, rfl⟩
  | cons a rest ih =>
    obtain ⟨l₁, hl₁, hfirst⟩ := lane?_apply_dealings envs hw hl a
    obtain ⟨l', hl', hrest⟩ := ih (tidy_apply envs hw a) hl₁
    exact ⟨l', hl', by rw [hrest, hfirst, dealAll_cons hw]⟩

/-- What a run makes of a lane, once the files are added that its first action adds. -/
theorem lane?_run_added (envs : Nat → Environment) (hw : w.Tidy) (a : Action)
    (hl : ((w.additions a).foldl (fun w (name, text) => w.add name text) w).lane? id = some l)
    (rest : List Action) : ∃ l', (w.run envs (a :: rest)).lane? id = some l' ∧
      l'.heedless = Lane.dealAll envs w.store.options id w.registries l.heedless
        (allDealings envs id w (a :: rest)) := by
  obtain ⟨l₁, hl₁, hfirst⟩ := lane?_apply_added envs hw a hl
  obtain ⟨l', hl', hrest⟩ := lane?_run_dealings envs (tidy_apply envs hw a) hl₁ rest
  exact ⟨l', hl', by rw [hrest, hfirst, dealAll_cons hw]⟩

end World

end DepGraph
