import Mathlib.Data.List.Count
import DepGraph.Proofs.Outcome
import DepGraph.Proofs.Walks

/-!
# The texts that a walk waits for

A walk asks for all the texts of a round at once. They may come in any order; the walk goes on when
all have come, with each text at the place of its file.

* `Event.fetch?`, `World.asked` — the files whose texts were asked for.
* `Join.Honest`, `Join.Settled` — a join has heard of nothing but ends, and every member has ended;
  no job makes it otherwise.
* `Walk.Awaits` — a walk waits for the texts of given files; `Walk.Awaits.perform` — every job
  leaves it so.
* `Walk.Awaits.returned` — when the texts have come, each is that of its file, and each file was
  asked for once.
-/

set_option autoImplicit false

namespace DepGraph

/-- The file whose text a walk asks for, if the event is such a request. -/
def Event.fetch? : Event → Option String
  | .fetched _ (.source name) => some name
  | _ => none

@[simp] theorem Event.fetch?_notice (n : Notice) : (Event.notice n).fetch? = none := rfl

/-- The files whose texts were asked for, in order. -/
def World.asked (w : World) : List String := w.log.filterMap Event.fetch?

theorem World.asked_record (w : World) (events : List Event) :
    (w.record events).asked = w.asked ++ events.filterMap Event.fetch? :=
  List.filterMap_append

theorem World.asked_performFetch (w : World) (k : Nat) (x : Walk) (job : JoinJob) :
    (w.performFetch k x job).asked = w.asked ++
      (x.fetches.perform (fun j => Job.walk k (.fetch j)) w.loop job).1.filterMap Event.fetch? :=
  asked_record _ _

/-! ## Joins, whatever is due -/

namespace Join

variable {ε φ α J : Type} {join : Join ε φ α}

theorem length_members_perform (wrap : JoinJob → J) (loop : Loop J) (job : JoinJob) :
    (join.perform wrap loop job).2.2.members.length = join.members.length := by
  cases job with
  | launch => rfl
  | wake => rfl
  | hear i =>
    simp only [perform, hear]
    split <;> rfl
  | turn i =>
    simp only [perform, turn]
    split
    · rfl
    · simp

theorem length_heard_perform (join : Join ε φ α) (wrap : JoinJob → J) (loop : Loop J)
    (job : JoinJob) :
    (join.perform wrap loop job).2.2.tally.heard.length = join.tally.heard.length := by
  cases job with
  | launch => rfl
  | wake => rfl
  | hear i =>
    simp only [perform, hear]
    split
    · exact Tally.length_hear _ _ _
    · rfl
  | turn i =>
    simp only [perform, turn]
    split <;> rfl

/-- A member that has ended stays as it is, whatever is due. -/
theorem ended_stays {i : Nat} {e : Ending φ α} (hm : join.members[i]? = some (.ended e))
    (wrap : JoinJob → J) (loop : Loop J) (job : JoinJob) :
    (join.perform wrap loop job).2.2.members[i]? = some (.ended e) := by
  cases job with
  | launch => exact hm
  | wake => exact hm
  | hear j =>
    simp only [perform, hear]
    split <;> exact hm
  | turn j =>
    simp only [perform, turn]
    split
    · exact hm
    · rename_i m hj
      by_cases hij : j = i
      · subst hij
        obtain rfl := Option.some.inj (hm.symm.trans hj)
        have hlt : j < join.members.length := (List.getElem?_eq_some_iff.mp hm).1
        exact List.getElem?_set_self hlt
      · exact (List.getElem?_set_ne hij).trans hm

/-- What a join has heard of, and what its verdict holds, are ends of its members. -/
def Honest (join : Join ε φ α) : Prop :=
  join.tally.Vouches fun i a => join.members[i]? = some (.ended (.returned a))

theorem honest_ofScripts (scripts : List (Script ε φ α)) : (ofScripts scripts).Honest :=
  Tally.vouches_start _ _

theorem Honest.perform (h : join.Honest) (wrap : JoinJob → J) (loop : Loop J) (job : JoinJob) :
    (join.perform wrap loop job).2.2.Honest := by
  have hstays : join.tally.Vouches fun i a =>
      (join.perform wrap loop job).2.2.members[i]? = some (.ended (.returned a)) :=
    Tally.Vouches.mono h fun i a hm => ended_stays hm wrap loop job
  cases job with
  | launch => exact h
  | wake => exact h
  | turn i =>
    have htally : (join.perform wrap loop (.turn i)).2.2.tally = join.tally := by
      simp only [Join.perform, turn]
      split <;> rfl
    unfold Honest
    rw [htally]
    exact hstays
  | hear i =>
    simp only [Join.perform, hear]
    split
    · rename_i ending hending
      obtain ⟨m, hm, he⟩ := Option.bind_eq_some_iff.mp hending
      refine Tally.Vouches.hear h fun a ha => ?_
      subst ha
      cases m with
      | ended e =>
        cases he
        exact hm
      | active farewell rest => cases he
      | stopped farewell => cases he
    · exact h

/-- Every member has ended. -/
def Settled (join : Join ε φ α) : Prop := ∀ m ∈ join.members, ∃ e, m = .ended e

/-- Nothing is left to do for members that have ended. -/
theorem Settled.perform (h : join.Settled) (wrap : JoinJob → J) (loop : Loop J) (job : JoinJob) :
    (join.perform wrap loop job).1 = [] ∧ (join.perform wrap loop job).2.2.Settled := by
  cases job with
  | launch => exact ⟨rfl, h⟩
  | wake => exact ⟨rfl, h⟩
  | hear i =>
    refine ⟨rfl, ?_⟩
    simp only [Join.perform, hear]
    split <;> exact h
  | turn i =>
    simp only [Join.perform, turn]
    split
    · exact ⟨rfl, h⟩
    · rename_i m hm
      obtain ⟨e, rfl⟩ := h m (List.mem_of_getElem? hm)
      refine ⟨rfl, fun m' hm' => ?_⟩
      rcases List.mem_or_eq_of_mem_set hm' with hm' | rfl
      · exact h m' hm'
      · exact ⟨e, rfl⟩

/-- Where every member has returned, every member has ended. -/
theorem Honest.settled (h : join.Honest) (hlength : join.tally.heard.length = join.members.length)
    {values : List α} (hv : join.tally.verdict = some (.returned values)) : join.Settled := by
  obtain ⟨hvalues, hended⟩ := h.verdict values hv
  intro m hm
  obtain ⟨i, hi⟩ := List.mem_iff_getElem?.mp hm
  have hlt : i < values.length := by
    rw [hvalues, hlength]
    exact (List.getElem?_eq_some_iff.mp hi).1
  have hmember := hended i values[i] (List.getElem?_eq_getElem hlt)
  exact ⟨_, Option.some.inj (hi.symm.trans hmember)⟩

end Join

/-! ## Requests for texts -/

/-- The job of the texts that walk `k` fetches, if it is one. -/
def Job.fetch? (k : Nat) : Job → Option JoinJob
  | .walk j (.fetch job) => if j = k then some job else none
  | _ => none

theorem Job.fetch?_unwraps (k : Nat) :
    Loop.Unwraps (Job.fetch? k) fun job => .walk k (.fetch job) := by
  intro j job
  cases j with
  | file id job' => simp [Job.fetch?]
  | walk k' job' =>
    cases job' with
    | fetch job' => by_cases h : k' = k <;> simp [Job.fetch?, h]
    | _ => simp [Job.fetch?]

/-- The jobs of a walk's texts are carried out on its part of the loop. -/
theorem Join.perform_fetch {ε φ α : Type} (join : Join ε φ α) (k : Nat) (loop : Loop Job)
    (job : JoinJob) :
    (join.perform (fun j => .walk k (.fetch j)) loop job).1 =
        (join.perform id (loop.select (Job.fetch? k)) job).1 ∧
      (join.perform (fun j => .walk k (.fetch j)) loop job).2.2 =
        (join.perform id (loop.select (Job.fetch? k)) job).2.2 := by
  have h := Join.perform_select ((Job.fetch?_unwraps k).carries id) loop join job
  rw [← h]
  exact ⟨rfl, rfl⟩

namespace World

/-- The requests of a round. -/
def fetchScripts (env : Environment) (k round : Nat) (missing : List String) :
    List (Script Event Cause String) :=
  missing.mapIdx fun i name => fetchScript env ⟨k, round, i⟩ name

theorem getElem?_fetchScripts (env : Environment) (k round : Nat) (missing : List String)
    (i : Nat) :
    (fetchScripts env k round missing)[i]? =
      missing[i]?.map fun name => fetchScript env ⟨k, round, i⟩ name := by
  simp [fetchScripts]

theorem length_fetchScripts (env : Environment) (k round : Nat) (missing : List String) :
    (fetchScripts env k round missing).length = missing.length := by
  simp [fetchScripts]

@[simp] theorem ending_fetchScript (env : Environment) (id : FetchId) (name : String) :
    (fetchScript env id name).ending = (env.source id name).outcome := by
  simp [fetchScript, Script.ending]

@[simp] theorem events_fetchScript (env : Environment) (id : FetchId) (name : String) :
    (fetchScript env id name).events = [.fetched id.walk (.source name)] := by
  simp [fetchScript, Script.events]

/-- A request asks for the text of its file only. -/
theorem fetchScript_asks (env : Environment) (id : FetchId) (name : String) :
    (fetchScript env id name).Logs fun e => ∀ other, e.fetch? = some other → other = name := by
  refine ⟨fun other h => (Option.some.inj h).symm, Script.logs_holdAll ?_ trivial⟩
  intro e he other h
  rw [List.mem_singleton.mp he] at h
  cases h

end World

/-- Walk `k` waits for the texts of the files `missing`, each of which it has asked for as far as
its request has come; what was asked for besides are the files `known`. -/
structure Walk.Awaits (env : Environment) (k : Nat) (known missing asked : List String)
    (x : Walk) : Prop where
  requests : ∃ events,
    Join.Along Member.OnCourse (World.fetchScripts env k x.round missing) events x.fetches ∧
    ∀ (i : Nat) (name : String), missing[i]? = some name →
      asked.count name = ((events i).filterMap Event.fetch?).count name
  others : ∀ name, name ∉ missing → asked.count name = known.count name
  honest : x.fetches.Honest
  heard : x.fetches.tally.heard.length = missing.length

namespace Walk

variable {env : Environment} {k : Nat} {known missing asked : List String} {x : Walk}

/-- Nothing was asked for when a round begins. -/
theorem awaits_ofScripts (hasked : asked.Perm known) (hnew : ∀ name ∈ missing, name ∉ known)
    (hfetches : x.fetches = Join.ofScripts (World.fetchScripts env k x.round missing)) :
    x.Awaits env k known missing asked := by
  refine ⟨⟨fun _ => [], ?_, fun i name hi => ?_⟩, fun name _ => hasked.count_eq name, ?_, ?_⟩
  · rw [hfetches]
    exact Join.along_ofScripts _
  · rw [hasked.count_eq name]
    exact List.count_eq_zero.mpr (hnew name (List.mem_of_getElem? hi))
  · rw [hfetches]
    exact Join.honest_ofScripts _
  · rw [hfetches]
    simp [Join.ofScripts, Tally.start, World.length_fetchScripts]

/-- **A job of the requests** leaves the walk waiting, and asks for no more than is logged. -/
theorem Awaits.perform (h : x.Awaits env k known missing asked) (hnodup : missing.Nodup)
    (loop : Loop Job) (job : JoinJob) :
    ({ x with fetches :=
        (x.fetches.perform (fun j => Job.walk k (.fetch j)) loop job).2.2 } : Walk).Awaits env k
      known missing (asked ++
        (x.fetches.perform (fun j => Job.walk k (.fetch j)) loop
          job).1.filterMap Event.fetch?) := by
  obtain ⟨events, halong, hasked⟩ := h.requests
  obtain ⟨hevents, hjoin⟩ := x.fetches.perform_fetch k loop job
  have hhonest := h.honest.perform (fun j => Job.walk k (.fetch j)) loop job
  have hheard := (x.fetches.length_heard_perform (fun j => Job.walk k (.fetch j)) loop
    job).trans h.heard
  have hafter := halong.perform (fun s es m isOpen hm => hm.turnOf isOpen)
    (loop.select (Job.fetch? k)) job
  rw [← hevents, ← hjoin] at hafter
  -- What a job logs was asked for by the member whose turn it is.
  have hnew : ∀ name,
      name ∈ (x.fetches.perform (fun j => Job.walk k (.fetch j)) loop job).1.filterMap
        Event.fetch? → ∃ i, job = .turn i ∧ missing[i]? = some name := by
    intro name hname
    obtain ⟨e, he, hfetch⟩ := List.mem_filterMap.mp hname
    cases job with
    | launch => cases he
    | wake => cases he
    | hear i => cases he
    | turn i =>
      refine ⟨i, rfl, ?_⟩
      cases hm : (x.fetches.perform (fun j => Job.walk k (.fetch j)) loop (.turn i)).2.2.members[i]?
        with
      | none =>
        have hnil : x.fetches.members[i]? = none := by
          rw [List.getElem?_eq_none_iff] at hm ⊢
          rwa [Join.length_members_perform] at hm
        simp [Join.perform, Join.turn, hnil] at he
      | some m =>
        obtain ⟨s, hs, hcourse⟩ := hafter.member hm
        rw [World.getElem?_fetchScripts] at hs
        obtain ⟨other, hother, rfl⟩ := Option.map_eq_some_iff.mp hs
        have hlogs := Member.Follows.logs (.inl hcourse)
          (World.fetchScript_asks env ⟨k, x.round, i⟩ other)
        rw [Join.noted, if_pos rfl] at hlogs
        rw [hlogs e (List.mem_append_right _ he) name hfetch]
        exact hother
  have hnone : ∀ name, (∀ i, job = .turn i → missing[i]? ≠ some name) →
      ((x.fetches.perform (fun j => Job.walk k (.fetch j)) loop job).1.filterMap
        Event.fetch?).count name = 0 := by
    intro name hother
    refine List.count_eq_zero.mpr fun hmem => ?_
    obtain ⟨i, hjob, hi⟩ := hnew name hmem
    exact hother i hjob hi
  refine ⟨⟨_, hafter, fun i name hi => ?_⟩, fun name hname => ?_, hhonest, hheard⟩
  · rw [List.count_append, hasked i name hi]
    by_cases hturn : job = .turn i
    · rw [Join.noted, if_pos hturn, List.filterMap_append, List.count_append]
    · rw [Join.noted, if_neg hturn, hnone name fun j hj hmissing => hturn ?_, Nat.add_zero]
      -- A file is missing at one place only.
      have hij : i = j := (List.getElem?_inj (List.getElem?_eq_some_iff.mp hi).1 hnodup).mp
        (hi.trans hmissing.symm)
      rw [hij, hj]
  · rw [List.count_append, h.others name hname, hnone name fun i _ hi =>
      hname (List.mem_of_getElem? hi), Nat.add_zero]

/-- **When the texts have come**, each is that of its file, every request has ended, and each file
was asked for once. -/
theorem Awaits.returned (h : x.Awaits env k known missing asked) (hnodup : (known ++ missing).Nodup)
    {texts : List String} (hv : x.fetches.tally.verdict = some (.returned texts)) :
    texts.length = missing.length ∧
    (∀ (i : Nat) (name text : String), missing[i]? = some name → texts[i]? = some text →
      (env.source ⟨k, x.round, i⟩ name).outcome = .returned text) ∧
    x.fetches.Settled ∧ asked.Perm (known ++ missing) := by
  obtain ⟨events, halong, hasked⟩ := h.requests
  obtain ⟨hlength, hended⟩ := h.honest.verdict texts hv
  have hmembers : x.fetches.tally.heard.length = x.fetches.members.length := by
    rw [h.heard, halong.length, World.length_fetchScripts]
  have hcourse : ∀ (i : Nat) (name text : String), missing[i]? = some name →
      texts[i]? = some text → (Member.ended (.returned text)).OnCourse
        (World.fetchScript env ⟨k, x.round, i⟩ name) (events i) := by
    intro i name text hi ht
    obtain ⟨s, hs, hcourse⟩ := halong.member (hended i text ht)
    rw [World.getElem?_fetchScripts, hi, Option.map_some] at hs
    cases hs
    exact hcourse
  refine ⟨hlength.trans h.heard, fun i name text hi ht => ?_, h.honest.settled hmembers hv, ?_⟩
  · rw [← World.ending_fetchScript]
    exact (hcourse i name text hi ht).ending_eq.symm
  · refine List.perm_iff_count.mpr fun name => ?_
    obtain ⟨-, hmissing, hapart⟩ := List.nodup_append.mp hnodup
    rw [List.count_append]
    by_cases hname : name ∈ missing
    · obtain ⟨i, hi⟩ := List.mem_iff_getElem?.mp hname
      have hlt : i < texts.length := by
        rw [hlength, h.heard]
        exact (List.getElem?_eq_some_iff.mp hi).1
      have hevents := (hcourse i name _ hi (List.getElem?_eq_getElem hlt)).events_eq
      have hknown : name ∉ known := fun hk => hapart name hk name hname rfl
      rw [hasked i name hi, hevents, World.events_fetchScript, List.count_eq_zero.mpr hknown,
        List.count_eq_one_of_mem hmissing hname]
      simp [Event.fetch?]
    · rw [h.others name hname, List.count_eq_zero.mpr hname, Nat.add_zero]

end Walk

end DepGraph
