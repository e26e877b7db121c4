import ControlPlane.Lib.ReadWrite
import ControlPlane.Registry.Installs
import ControlPlane.Activities.Idempotency
import ControlPlane.Workflows.AgentJob

/-!
# Starting jobs

`app/sessions.py` and the flood of `app/demo.py`: each job has a row in the
job index and a workflow in Temporal, written one after the other
(`startSession`, `submitOne`). Any call may raise, having done nothing or
having been carried out (`Fate`). The members of a flood run at the same time;
where one fails the others go on in the API, and are cancelled by `asyncio.run`
in the command: a call whose await is cancelled was refused, or was carried out
and lost its answer. Job ids end in digits of a `uuid4`, and so no two
submissions have the same one.

* `Submits`, `Starts`: what a submission has still to do before its row is
  written, and after.
* `Stage`: where a submission has got to, with what there is of its row and
  its workflow; each call moves it on, or leaves the row of a job that failed
  (`Stage.next`).
* `submissions_atomic_iff`: every submission is all or nothing in every state
  of a run, exactly if no call fails once its row is written.
-/

namespace ControlPlane

open Effect Effect.Prog

/-! ## Temporal's client -/

structure Priority where
  priorityKey : ℤ
  fairnessKey : Option String := none
  fairnessWeight : Option PyFloat := none

inductive TemporalOp
  | connect
  /-- The search attribute `TenantId` is the one every job is started with. -/
  | startWorkflow (input : AgentJobInput) (id : String) (taskQueue : String) (priority : Priority) (tenantId : String)

def Temporal : Sig := ⟨TemporalOp, fun _ => Unit⟩

abbrev ClientSig : Sig := Dynamo.sum (Clock.sum Temporal)

/-- Programs over the table, the clock and Temporal. -/
abbrev Client (α : Type) := Prog ClientSig Raised α

def temporal (o : TemporalOp) : Client Unit := provider (call (S := Temporal) o done)

variable [Pydantic]

omit [Pydantic] in
/-- Temporal's `Priority`, which refuses a key below 1. -/
def Priority.checked (priority : Priority) : Except Raised Priority :=
  if priority.priorityKey < 1 then .error (.valueError "priority_key must be a positive integer") else .ok priority

/-- The tenant's priority, with its fairness if that is switched on. -/
def resolvePriority (tenantId : String) : Repo Priority := do
  match ← getTenant tenantId with
  | none => fail (unknownTenant tenantId)
  | some tenant =>
    let priority : Priority :=
      if !(← getFairnessSetting).enabled then { priorityKey := tenant.priorityKey }
      else {
        priorityKey := tenant.priorityKey
        fairnessKey := some tenant.tenantId
        fairnessWeight := some tenant.fairnessWeight }
    ofExcept priority.checked

def notPublished (agentId : String) : Raised :=
  .valueError ("agent " ++ pyRepr agentId ++ " is not published — run `dos agent publish " ++ agentId ++ "` first")

/-- The latest published version. -/
def latestVersion (agentId : String) : Client ℤ := do
  match ← repo (listAgentPackageVersions agentId) with
  | [] => fail (notPublished agentId)
  | package :: packages => return packages.foldl (fun v p => max v p.version) package.version

omit [Pydantic] in
/-- The row of a job that is about to be started. -/
def queuedJob (jobId tenantId agentId createdAt : String) (priority : Priority) : Job where
  jobId := jobId
  tenantId := tenantId
  agentId := agentId
  workflowId := jobId
  status := .queued
  priorityKey := priority.priorityKey
  createdAt := createdAt

/-- Starts one agent job, and returns its id. `hex` is `uuid.uuid4().hex[:8]`. -/
def startSession (taskQueue agentId tenantId prompt hex : String) : Client String := do
  let priority ← repo (resolvePriority tenantId)
  let agentVersion ← latestVersion agentId
  let jobId := "session-" ++ agentId ++ "-" ++ hex
  let createdAt ← now
  repo (putJob (queuedJob jobId tenantId agentId createdAt priority))
  temporal .connect
  temporal (.startWorkflow { jobId, tenantId, agentId, agentVersion, prompt } jobId taskQueue priority tenantId)
  return jobId

def floodPrompt : String :=
  "Alert: checkout-api p99 latency crossed 2s at 14:02 UTC and error rate is 4%. Recent deploys: checkout-api v412 at 13:58 UTC, search-api v88 at 11:20 UTC. Triage it."

/-- What a flood does before its members. -/
def floodStart (tenantId agentId : String) : Client (Priority × ℤ) := do
  let priority ← repo (resolvePriority tenantId)
  let agentVersion ← latestVersion agentId
  temporal .connect
  return (priority, agentVersion)

omit [Pydantic] in
/-- One member of a flood. -/
def submitOne (taskQueue tenantId agentId : String) (priority : Priority) (agentVersion : ℤ) (hex : String) :
    Client String := do
  let jobId := "flood-" ++ tenantId ++ "-" ++ hex
  let createdAt ← now
  repo (putJob (queuedJob jobId tenantId agentId createdAt priority))
  temporal (.startWorkflow { jobId, tenantId, agentId, agentVersion, prompt := floodPrompt } jobId taskQueue priority
    tenantId)
  return jobId

/-! ## Submissions -/

/-- A call of `startSession`, or a member of a flood. -/
inductive Submission
  | session (taskQueue agentId tenantId prompt hex : String)
  | member (taskQueue tenantId agentId : String) (priority : Priority) (agentVersion : ℤ) (hex : String)

namespace Submission

omit [Pydantic] in
def jobId : Submission → String
  | session _ agentId _ _ hex => "session-" ++ agentId ++ "-" ++ hex
  | member _ tenantId _ _ _ hex => "flood-" ++ tenantId ++ "-" ++ hex

def prog : Submission → Client String
  | session taskQueue agentId tenantId prompt hex => startSession taskQueue agentId tenantId prompt hex
  | member taskQueue tenantId agentId priority agentVersion hex =>
    submitOne taskQueue tenantId agentId priority agentVersion hex

end Submission

/-- What is left of a submission whose row is written. -/
inductive Starts (id : String) : Client String → Prop
  | connect {k : Unit → Client String} (h : ∀ a, Starts id (k a)) :
    Starts id (call (S := ClientSig) (.inr (.inr .connect)) k)
  | start {k : Unit → Client String} (input : AgentJobInput) (taskQueue : String) (priority : Priority)
    (tenantId : String) (h : ∀ a, ∃ r, k a = done r) :
    Starts id (call (S := ClientSig)
      (.inr (.inr (.startWorkflow input id taskQueue priority tenantId))) k)

/-- What a submission does before its row is written: it looks things up. -/
def Looks : ClientSig.Op → Prop
  | .inl o => DynamoOp.writes o = none
  | .inr (.inl _) => True
  | .inr (.inr _) => False

/-- What is left of a submission before its row is written. -/
inductive Submits (id : String) : Client String → Prop
  | fail (e : Raised) : Submits id (.fail e)
  | look {o : ClientSig.Op} {k : ClientSig.Ans o → Client String}
    (ho : Looks o) (h : ∀ a, Submits id (k a)) : Submits id (call o k)
  | put {k : Bool → Client String} (attrs : Attrs) (h : ∀ a, Starts id (k a)) :
    Submits id (call (S := ClientSig) (.inl (.putItem (jobKey id) attrs false)) k)

omit [Pydantic] in
theorem Submits.bind {α : Type} {id : String} {p : Client α} {f : α → Client String} (hp : Calls Looks p)
    (hf : ∀ a, Submits id (f a)) : Submits id (p >>= f) := by
  induction p with
  | done a => exact hf a
  | fail e => exact .fail e
  | call o k ih => exact .look hp.1 fun a => ih a (hp.2 a)

theorem looks_resolvePriority (tenantId : String) : Calls Looks (repo (resolvePriority tenantId)) := by
  have hget {α : Type} (k : Key) (ofItem : Attrs → Except Raised α) :
      Calls (fun o => Looks (.inl o)) (getRow k ofItem) := calls_getRow (P := fun o => Looks (.inl o)) rfl ofItem
  refine Calls.inl ((hget _ _).bind fun tenant => ?_)
  cases tenant with
  | none => trivial
  | some tenant =>
    have hsetting : Calls (fun o => Looks (.inl o)) getFairnessSetting := (hget _ _).bind fun _ => trivial
    exact hsetting.bind fun setting => Calls.ofExcept _

theorem looks_latestVersion (agentId : String) : Calls Looks (latestVersion agentId) := by
  refine Calls.bind (Calls.inl ⟨rfl, fun items => Calls.ofExcept _⟩) fun packages => ?_
  cases packages with
  | nil => trivial
  | cons package packages => trivial

theorem submits_prog (s : Submission) : Submits s.jobId s.prog := by
  cases s with
  | session taskQueue agentId tenantId prompt hex =>
    refine .bind (looks_resolvePriority tenantId) fun priority => ?_
    refine .bind (looks_latestVersion agentId) fun agentVersion => ?_
    exact .look trivial fun createdAt => .put _ fun _ => .connect fun _ => .start _ _ _ _ fun _ => ⟨_, rfl⟩
  | member taskQueue tenantId agentId priority agentVersion hex =>
    exact .look trivial fun createdAt => .put _ fun _ => .start _ _ _ _ fun _ => ⟨_, rfl⟩

/-! ## The job index and Temporal -/

/-- The table, and the ids of the workflows Temporal has accepted. -/
structure Fleet where
  table : Table
  workflows : List String

/-- What a call finds: a read some version of the table, and of it the part
`page` keeps; the clock an instant. -/
structure Finding where
  seen : Table
  page : List Row → List Row
  instant : String

def fleetTable : Handler Dynamo Raised Finding Fleet := fun o c w =>
  match dynamo c.page c.seen o w.table with
  | .error e => .error e
  | .ok (a, t) => .ok (a, { w with table := t })

def fleetClock : Handler Clock Raised Finding Fleet := fun _ c w => .ok (c.instant, w)

/-- Temporal starts no second workflow under an id. -/
def fleetTemporal : Handler Temporal Raised Finding Fleet
  | .connect, _, w => .ok ((), w)
  | .startWorkflow _ id _ _ _, _, w =>
    if id ∈ w.workflows then .error .requestError else .ok ((), { w with workflows := id :: w.workflows })

def fleetCalls : Handler ClientSig Raised Finding Fleet := fleetTable.sum (fleetClock.sum fleetTemporal)

/-- Any call may raise. -/
def fleet : Handler ClientSig.lossy Raised (Fate × Finding) Fleet := fleetCalls.lossy

/-- A submission under way. -/
abbrev Underway := Prog ClientSig.lossy Raised String

abbrev Submitting (ι : Type) := Pool ClientSig.lossy Raised String Fleet ι

/-- Submissions, about to start. -/
def submissions {ι : Type} (s : ι → Submission) (w : Fleet) : Submitting ι :=
  ⟨w, fun i => (s i).prog.lossy .requestError⟩

def Fleet.hasRow (w : Fleet) (jobId : String) : Prop := (w.table.lookup (jobKey jobId)).isSome

/-- Each job whose workflow is accepted has its row, and none is left of one
whose submission failed and whose workflow is not. -/
def AllOrNothing {ι : Type} (s : ι → Submission) (p : Submitting ι) : Prop :=
  ∀ i, ((s i).jobId ∈ p.world.workflows → p.world.hasRow (s i).jobId) ∧
    ∀ e, p.thread i = .fail e → (s i).jobId ∉ p.world.workflows → ¬ p.world.hasRow (s i).jobId

/-- A call that does not fail where the row is written: a write of the row is
refused or answered, a connection made, and a workflow accepted. -/
def Sound : ClientSig.lossy.Op → Fate × Finding → Prop
  | .inl (.putItem _ attrs _), c => c.1 = .lost → serializeDict attrs = none
  | .inr (.inr .connect), c => c.1 = .answered
  | .inr (.inr (.startWorkflow _ _ _ _ _)), c => c.1 ≠ .refused
  | _, _ => True

/-- Where a submission has got to, in any state of a run of sound calls. -/
inductive Stage (id : String) (w : Fleet) : Underway → Prop
  | submits {q : Client String} (hq : Submits id q) (hr : ¬ w.hasRow id) (hw : id ∉ w.workflows) :
    Stage id w (q.lossy .requestError)
  | starts {q : Client String} (hq : Starts id q) (hr : w.hasRow id) (hw : id ∉ w.workflows) :
    Stage id w (q.lossy .requestError)
  | accepted {q : Underway} (he : Ended q) (hr : w.hasRow id)
    (hw : id ∈ w.workflows) : Stage id w q

/-- A submission that failed and left its row. -/
def LeftOver (id : String) (w : Fleet) (q : Underway) : Prop :=
  (∃ e, q = .fail e) ∧ w.hasRow id ∧ id ∉ w.workflows

omit [Pydantic] in
/-- A lookup changes nothing. -/
theorem looks_keeps {o : ClientSig.Op} (ho : Looks o) {f : Finding} {w w' : Fleet}
    {a : ClientSig.Ans o}
    (h : fleetCalls o f w = .ok (a, w')) : w' = w := by
  obtain o | o | o := o
  · have ht : fleetTable o f w = .ok (a, w') := h
    simp only [fleetTable] at ht
    split at ht
    · cases ht
    · rename_i b t hd
      cases ht
      rw [dynamo_read ho hd]
  · cases h; rfl
  · exact ho.elim

omit [Pydantic] in
theorem Fleet.hasRow_insert (w : Fleet) (id : String) (row : Attrs) :
    ({ w with table := w.table.insert (jobKey id) row } : Fleet).hasRow id := by
  simp [Fleet.hasRow]

/-- The program's next call, if it makes one, is sound. -/
def SoundNext (q : Underway) (c : Fate × Finding) : Prop :=
  ∀ o k, q = .call o k → Sound o c

omit [Pydantic] in
theorem soundNext_ended {q : Underway} {c : Fate × Finding} (he : Ended q) : SoundNext q c := by
  intro o k hq
  rw [hq] at he
  exact he.elim

omit [Pydantic] in
theorem soundNext_call {o : ClientSig.Op}
    {k : ClientSig.Ans o → Client String} {e : Raised} {c : Fate × Finding} :
    SoundNext ((Prog.call o k).lossy e) c ↔ Sound o c := by
  unfold SoundNext
  rw [Prog.lossy]
  constructor
  · exact fun h => h o _ rfl
  · rintro h _ _ ⟨⟩
    exact h

/-- What a call of a submission writes. -/
inductive Writes (id : String) (w : Fleet) : Fleet → Prop
  | nothing : Writes id w w
  | row (row : Attrs) : Writes id w { w with table := w.table.insert (jobKey id) row }
  | workflow : Writes id w { w with workflows := id :: w.workflows }

/-- A submission's next call is sound and it goes on, or it is not and leaves
the row. -/
def Comes (id : String) (w : Fleet) (q : Underway) (c : Fate × Finding) (r : Underway × Fleet) : Prop :=
  Writes id w r.2 ∧ ((SoundNext q c ∧ Stage id r.2 r.1) ∨ (¬ SoundNext q c ∧ LeftOver id r.2 r.1))

section

variable {id : String} {w : Fleet} {q : Underway} {c : Fate × Finding} {r r' : Underway × Fleet}

omit [Pydantic] in
theorem Comes.stage (hs : SoundNext q c) (hr : r = r') (hw : Writes id w r'.2) (h : Stage id r'.2 r'.1) :
    Comes id w q c r := by
  subst hr
  exact ⟨hw, .inl ⟨hs, h⟩⟩

omit [Pydantic] in
theorem Comes.leftOver (hs : ¬ SoundNext q c) (hr : r = r') (hw : Writes id w r'.2) (h : LeftOver id r'.2 r'.1) :
    Comes id w q c r := by
  subst hr
  exact ⟨hw, .inr ⟨hs, h⟩⟩

end

variable {id : String} {w : Fleet}

omit [Pydantic] in
/-- The job's row is written if its attributes can be stored. -/
theorem fleetCalls_put (id : String) (attrs : Attrs) (f : Finding) (w : Fleet) :
    fleetCalls (.inl (.putItem (jobKey id) attrs false)) f w = (serializeDict attrs).elim (.error .notStorable)
      fun row => .ok (true, { w with table := w.table.insert (jobKey id) row }) := by
  show fleetTable (.putItem (jobKey id) attrs false) f w = _
  simp only [fleetTable, dynamo]
  cases serializeDict attrs with
  | none => rfl
  | some row => rfl

omit [Pydantic] in
/-- Before the row is written. -/
theorem Submits.next {q : Client String} (hq : Submits id q) (hr : ¬ w.hasRow id) (hw : id ∉ w.workflows)
    (c : Fate × Finding) : Comes id w (q.lossy .requestError) c ((q.lossy .requestError).next fleet c w) := by
  obtain ⟨fate, f⟩ := c
  have hfail (e : Raised) : Stage id w (.fail e) := .submits (.fail e) hr hw
  cases hq with
  | fail e => exact .stage (soundNext_ended trivial) rfl .nothing (hfail e)
  | @look o k ho h =>
    have hs : SoundNext ((Prog.call o k).lossy .requestError) (fate, f) := by
      refine soundNext_call.mpr ?_
      obtain o | o | o := o
      · cases o with
        | putItem key attrs ifAbsent => cases ho
        | _ => trivial
      · trivial
      · exact ho.elim
    cases hc : fleetCalls o f w with
    | error e =>
      obtain ⟨e', he⟩ := next_raised (k := k) (e := Raised.requestError) hc fate
      exact .stage hs he .nothing (hfail e')
    | ok r =>
      obtain ⟨a, w'⟩ := r
      cases looks_keeps ho hc
      cases fate with
      | answered => exact .stage hs (next_answered hc) .nothing (.submits (h a) hr hw)
      | refused => exact .stage hs next_refused .nothing (hfail _)
      | lost => exact .stage hs (next_lost hc) .nothing (hfail _)
  | @put k attrs h =>
    cases hs : serializeDict attrs with
    | none =>
      have hc : fleetCalls (.inl (.putItem (jobKey id) attrs false)) f w = .error .notStorable := by
        rw [fleetCalls_put, hs]
        rfl
      obtain ⟨e', he⟩ := next_raised (h := fleetCalls) (o := .inl (.putItem (jobKey id) attrs false)) (k := k)
        (e := Raised.requestError) hc fate
      exact .stage (soundNext_call.mpr fun _ => hs) he .nothing (hfail e')
    | some row =>
      have hc : fleetCalls (.inl (.putItem (jobKey id) attrs false)) f w =
          .ok (true, { w with table := w.table.insert (jobKey id) row }) := by
        rw [fleetCalls_put, hs]
        rfl
      have hrow := w.hasRow_insert id row
      cases fate with
      | answered =>
        have hs : Sound (.inl (.putItem (jobKey id) attrs false)) (.answered, f) := by
          intro h
          cases h
        exact .stage (soundNext_call.mpr hs) (next_answered hc) (.row row) (.starts (h true) hrow hw)
      | refused =>
        have hs : Sound (.inl (.putItem (jobKey id) attrs false)) (.refused, f) := by
          intro h
          cases h
        exact .stage (soundNext_call.mpr hs) next_refused .nothing (hfail _)
      | lost =>
        refine .leftOver (fun hn => ?_) (next_lost hc) (.row row) ⟨⟨_, rfl⟩, hrow, hw⟩
        rw [soundNext_call.mp hn rfl] at hs
        cases hs

omit [Pydantic] in
/-- After the row is written. -/
theorem Starts.next {q : Client String} (hq : Starts id q) (hr : w.hasRow id) (hw : id ∉ w.workflows)
    (c : Fate × Finding) : Comes id w (q.lossy .requestError) c ((q.lossy .requestError).next fleet c w) := by
  obtain ⟨fate, f⟩ := c
  have hleft (e : Raised) : LeftOver id w (.fail e) := ⟨⟨e, rfl⟩, hr, hw⟩
  cases hq with
  | @connect k h =>
    have hc : fleetCalls (.inr (.inr .connect)) f w = .ok ((), w) := rfl
    cases fate with
    | answered => exact .stage (soundNext_call.mpr rfl) (next_answered hc) .nothing (.starts (h ()) hr hw)
    | refused =>
      refine .leftOver (fun hn => ?_) next_refused .nothing (hleft _)
      cases soundNext_call.mp hn
    | lost =>
      refine .leftOver (fun hn => ?_) (next_lost hc) .nothing (hleft _)
      cases soundNext_call.mp hn
  | @start k input taskQueue priority tenantId h =>
    have hc : fleetCalls
        (.inr (.inr (.startWorkflow input id taskQueue priority tenantId))) f w =
          .ok ((), { w with workflows := id :: w.workflows }) := if_neg hw
    have hin : id ∈ ({ w with workflows := id :: w.workflows } : Fleet).workflows := List.mem_cons_self
    cases fate with
    | answered =>
      obtain ⟨r, hk⟩ := h ()
      refine .stage (soundNext_call.mpr ?_) (next_answered hc) .workflow (.accepted ?_ hr hin)
      · intro h
        cases h
      · rw [hk]
        trivial
    | refused => exact .leftOver (fun hn => soundNext_call.mp hn rfl) next_refused .nothing (hleft _)
    | lost =>
      refine .stage (soundNext_call.mpr ?_) (next_lost hc) .workflow (.accepted trivial hr hin)
      intro h
      cases h

omit [Pydantic] in
theorem Stage.next {q : Underway} (h : Stage id w q) (c : Fate × Finding) : Comes id w q c (q.next fleet c w) := by
  cases h with
  | submits hq hr hw => exact hq.next hr hw c
  | starts hq hr hw => exact hq.next hr hw c
  | accepted he hr hw =>
    cases q with
    | call o k => exact he.elim
    | done a => exact .stage (soundNext_ended trivial) rfl .nothing (.accepted trivial hr hw)
    | fail e => exact .stage (soundNext_ended trivial) rfl .nothing (.accepted trivial hr hw)

/-! ## Runs -/

omit [Pydantic] in
theorem lossy_ne_fail {o : ClientSig.Op} {k : ClientSig.Ans o → Client String} {e e' : Raised} :
    (Prog.call o k).lossy e ≠ .fail e' := by
  rw [Prog.lossy]
  intro h
  cases h

omit [Pydantic] in
/-- A submission that has not gone wrong is all or nothing. -/
theorem Stage.allOrNothing {q : Underway} (h : Stage id w q) :
    (id ∈ w.workflows → w.hasRow id) ∧ ∀ e, q = .fail e → id ∉ w.workflows → ¬ w.hasRow id := by
  cases h with
  | submits hq hr hw => exact ⟨fun h => absurd h hw, fun _ _ _ => hr⟩
  | starts hq hr hw =>
    refine ⟨fun _ => hr, fun e he _ => ?_⟩
    cases hq with
    | connect h => exact (lossy_ne_fail he).elim
    | start input taskQueue priority tenantId h => exact (lossy_ne_fail he).elim
  | accepted he hr hw => exact ⟨fun _ => hr, fun _ _ h => absurd hw h⟩

/-- What another submission's call leaves of a job. -/
structure Apart (id : String) (w w' : Fleet) : Prop where
  row : w'.hasRow id ↔ w.hasRow id
  workflow : id ∈ w'.workflows ↔ id ∈ w.workflows

omit [Pydantic] in
theorem Stage.apart {w' : Fleet} {q : Underway} (h : Stage id w q) (ha : Apart id w w') : Stage id w' q := by
  cases h with
  | submits hq hr hw => exact .submits hq (mt ha.row.mp hr) (mt ha.workflow.mp hw)
  | starts hq hr hw => exact .starts hq (ha.row.mpr hr) (mt ha.workflow.mp hw)
  | accepted he hr hw => exact .accepted he (ha.row.mpr hr) (ha.workflow.mpr hw)

omit [Pydantic] in
theorem Writes.apart {id' : String} {w' : Fleet} (h : Writes id w w') (hne : id' ≠ id) : Apart id' w w' := by
  cases h with
  | nothing => exact ⟨Iff.rfl, Iff.rfl⟩
  | row row =>
    have hk : jobKey id' ≠ jobKey id := fun e => hne (by simpa [jobKey] using e)
    refine ⟨?_, Iff.rfl⟩
    unfold Fleet.hasRow
    rw [AList.lookup_insert_ne hk]
  | workflow => exact ⟨Iff.rfl, by simp [hne]⟩

section

variable {ι : Type} [DecidableEq ι] {s : ι → Submission} {p : Submitting ι}

/-- Every submission at its stage. -/
def Staged (s : ι → Submission) (p : Submitting ι) : Prop := ∀ i, Stage (s i).jobId p.world (p.thread i)

omit [Pydantic] [DecidableEq ι] in
theorem Staged.allOrNothing (h : Staged s p) : AllOrNothing s p := fun i => (h i).allOrNothing

omit [Pydantic] in
/-- A call keeps every submission at its stage if it is sound; if it is not,
it leaves a row. -/
theorem Staged.step (hid : Function.Injective fun i => (s i).jobId) (h : Staged s p) (x : ι × (Fate × Finding)) :
    (SoundNext (p.thread x.1) x.2 ∧ Staged s (p.step (fun _ => fleet) x)) ∨
      (¬ SoundNext (p.thread x.1) x.2 ∧ ¬ AllOrNothing s (p.step (fun _ => fleet) x)) := by
  obtain ⟨hwrites, hnext⟩ := (h x.1).next x.2
  rw [Pool.step_eq]
  rcases hnext with ⟨hs, hst⟩ | ⟨hs, ⟨e, he⟩, hrow, hw⟩
  · refine .inl ⟨hs, fun i => ?_⟩
    by_cases hi : i = x.1
    · subst hi
      simpa only [Function.update_self] using hst
    · simp only [Function.update_of_ne hi]
      exact (h i).apart (hwrites.apart fun e => hi (hid e))
  · refine .inr ⟨hs, fun hall => ?_⟩
    exact (hall x.1).2 e (by simpa only [Function.update_self] using he) hw hrow

/-- **All or nothing.** Submissions under ids of their own, with no rows and no
workflows yet, keep each job's row with its workflow in every state of a run
exactly if each call of the run is sound. -/
theorem submissions_atomic_iff (hid : Function.Injective fun i => (s i).jobId) (w : Fleet)
    (hrow : ∀ i, ¬ w.hasRow (s i).jobId) (hw : ∀ i, (s i).jobId ∉ w.workflows) (sched : List (ι × (Fate × Finding))) :
    (∀ before, before <+: sched → AllOrNothing s ((submissions s w).run (fun _ => fleet) before)) ↔
      (submissions s w).Choosing (fun _ => fleet) Sound sched := by
  have hstart : Staged s (submissions s w) := fun i => .submits (submits_prog (s i)) (hrow i) (hw i)
  generalize submissions s w = p at hstart
  induction sched generalizing p with
  | nil =>
    refine ⟨fun _ => trivial, fun _ before hb => ?_⟩
    rw [List.prefix_nil.mp hb]
    exact hstart.allOrNothing
  | cons x xs ih =>
    rcases hstart.step hid x with ⟨hs, hst⟩ | ⟨hs, hleft⟩
    · have hrest := ih _ hst
      constructor
      · exact fun h => ⟨hs, hrest.mp fun before hb => h (x :: before) (List.prefix_cons_inj x |>.mpr hb)⟩
      · intro h before hb
        cases before with
        | nil => exact hstart.allOrNothing
        | cons y ys =>
          obtain ⟨rfl, hys⟩ := List.cons_prefix_cons.mp hb
          exact hrest.mpr h.2 ys hys
    · constructor
      · intro h
        exact absurd (h [x] (List.cons_prefix_cons.mpr ⟨rfl, List.nil_prefix⟩)) hleft
      · exact fun h => absurd h.1 hs

omit [Pydantic] in
/-- Calls that are answered are sound. -/
theorem sound_answered (o : ClientSig.lossy.Op) (f : Finding) : Sound o (.answered, f) := by
  obtain o | o | o := o
  · cases o with
    | putItem key attrs ifAbsent => exact (nomatch ·)
    | _ => trivial
  · trivial
  · cases o with
    | connect => rfl
    | startWorkflow input id taskQueue priority tenantId => exact (nomatch ·)

end

/-- What a flood does before its members changes nothing, and where it fails
there are none. -/
theorem floodStart_keeps (tenantId agentId : String) (choices : List (Fate × Finding)) (w : Fleet) :
    (run fleet ((floodStart tenantId agentId).lossy .requestError) choices w).2 = w := by
  let Quiet : ClientSig.Op → Prop := fun o => Looks o ∨ o = .inr (.inr .connect)
  have hcalls : Calls Quiet (floodStart tenantId agentId) := by
    refine Calls.bind ((looks_resolvePriority tenantId).mono fun _ => .inl) fun priority => ?_
    refine Calls.bind ((looks_latestVersion agentId).mono fun _ => .inl) fun agentVersion => ?_
    exact ⟨.inr rfl, fun _ => trivial⟩
  have hkeeps (o : ClientSig.Op) (f : Finding) (a : ClientSig.Ans o) (w' : Fleet) (ho : Quiet o)
      (h : fleetCalls o f w = .ok (a, w')) : w' = w := by
    rcases ho with ho | rfl
    · exact looks_keeps ho h
    · cases h
      rfl
  have hsafe : Safe fleet (fun w' => w' = w) (fun _ w' => w' = w) ((floodStart tenantId agentId).lossy .requestError) w := by
    refine Safe.of_calls (fun o c w₁ a w' ho hw hc => ?_) (hcalls.lossy _) rfl
    subst hw
    exact lossy_keeps (h := fleetCalls) (I := fun w' => w' = w₁) rfl (fun a w' h => hkeeps o c.2 a w' ho h) hc
  exact (hsafe.run choices).world fun _ _ h => h

/-! ## A session and a flood -/

omit [Pydantic]

def triageSession (_ : Unit) : Submission :=
  .session "agent-jobs" "incident-triage" "initech" "Checkout is slow. Triage it." "0a1b2c3d"

/-- The session, and a member of a flood. -/
def sessionAndMember (i : Bool) : Submission :=
  if i then triageSession () else .member "agent-jobs" "initech" "incident-triage" { priorityKey := 3 } 1 "9f8e7d6c"

/-- What a call finds, with a table as it is. -/
def triageFinding : Finding := ⟨initechTable, fun rows => rows, "2026-09-02T14:02:00+00:00"⟩

def triageCall (fate : Fate) : Unit × (Fate × Finding) := ((), fate, triageFinding)

/-- The member's calls fall between those of the session: before it writes its
row, after it, and after it has connected. -/
def memberBetween : List (Bool × (Fate × Finding)) :=
  [true, true, true, false, true, true, false, true, false, true].map fun i => (i, .answered, triageFinding)

/-- Each call is answered, and in the end both have their row and workflow. -/
theorem session_atomic :
    letI := digits
    (∀ before, before <+: memberBetween →
      AllOrNothing sessionAndMember ((submissions sessionAndMember ⟨initechTable, []⟩).run (fun _ => fleet) before)) ∧
    ∀ i, (sessionAndMember i).jobId ∈
      ((submissions sessionAndMember ⟨initechTable, []⟩).run (fun _ => fleet) memberBetween).world.workflows := by
  let _ := digits
  have hid : Function.Injective fun i => (sessionAndMember i).jobId := by
    intro a b h
    cases a with
    | true => cases b with
      | true => rfl
      | false => exact absurd h (by decide)
    | false => cases b with
      | true => exact absurd h (by decide)
      | false => rfl
  have hrow (i : Bool) : ¬ Fleet.hasRow ⟨initechTable, []⟩ (sessionAndMember i).jobId := by
    show ¬ (initechTable.lookup (jobKey (sessionAndMember i).jobId)).isSome
    revert i
    decide +kernel
  have hsound : (submissions sessionAndMember ⟨initechTable, []⟩).Choosing (fun _ => fleet) Sound memberBetween := by
    refine Pool.choosing_of_forall fun x hx o => ?_
    obtain ⟨i, -, rfl⟩ := List.mem_map.mp hx
    exact sound_answered o _
  refine ⟨(submissions_atomic_iff hid ⟨initechTable, []⟩ hrow (fun _ => List.not_mem_nil) _).mpr hsound, ?_⟩
  decide +kernel

/-- The connection fails, after the row is written: a queued job stays behind
that no workflow will ever run. -/
theorem session_leftOver :
    letI := digits
    ¬ AllOrNothing triageSession ((submissions triageSession ⟨initechTable, []⟩).run (fun _ => fleet)
      (List.replicate 5 (triageCall .answered) ++ [triageCall .refused])) := by
  let _ := digits
  intro h
  obtain ⟨-, hfail⟩ := h ()
  have hlast : (match ((submissions triageSession ⟨initechTable, []⟩).run (fun _ => fleet)
      (List.replicate 5 (triageCall .answered) ++ [triageCall .refused])).thread () with
    | .fail _ => true
    | _ => false) = true := by decide +kernel
  split at hlast
  · rename_i e he
    refine hfail e he ?_ ?_
    · decide +kernel
    · unfold Fleet.hasRow
      decide +kernel
  · cases hlast

end ControlPlane
