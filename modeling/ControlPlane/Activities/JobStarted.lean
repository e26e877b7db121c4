import ControlPlane.Activities.Idempotency
import ControlPlane.Lib.Machine

/-!
# The stamp of a job's start

`mark_job_started`, of `app/activities/registry.py`: an execution reads the
clock and stamps the job's row with it, if there is one. Temporal retries it,
and an execution that is given up may still land; what an execution does to
the table it does at once, with a time it may have read long before.

* `markJobStarted_only`: an execution creates no row, and changes `started_at`
  and `status` of the job's row alone.
* `startedAt_earliest`: while each execution that finds the row read the clock
  no later than those before it, `started_at` is the time of the earliest.
* `startedAt_retried`: a retry moves the stamp to its own time.
-/

namespace ControlPlane

open Effect Effect.Prog
open Machine (Along along_nil along_cons)

/-- Stamps when a job actually began executing. -/
def markJobStartedActivity {T : Sig} (jobId : String) : Activity T Unit := do
  repo (markJobStarted jobId (← now))

/-- A time as the clock writes it. -/
structure Stamp where
  text : String
  instant : ℤ
  reads : fromisoformat text = some instant

/-- The table and the clock of an execution that read the time `stamp`. -/
def clockAt (stamp : Stamp) : Handler (Dynamo.sum (Clock.sum ⟨Empty, fun _ => Unit⟩)) Raised Unit Table :=
  onTable.sum (Handler.sum (fun _ _ t => .ok (stamp.text, t)) fun o => o.elim)

/-- What an execution leaves of the table. -/
def executed (jobId : String) (stamp : Stamp) (t : Table) : Table :=
  (exec (clockAt stamp) (markJobStartedActivity jobId) t).2

/-! ## One execution -/

/-- The attributes an execution sets. -/
def startedAttrs (text : String) : Attrs := [("started_at", .str text), ("status", .str "running")]

variable {jobId : String} {stamp : Stamp} {t : Table} {row : Attrs}

theorem jobKey_inj {a b : String} : jobKey a = jobKey b ↔ a = b := by simp [jobKey]

/-- What an execution does: it sets the attributes of the row, if there is one. -/
theorem executed_eq (jobId : String) (stamp : Stamp) (t : Table) :
    executed jobId stamp t = match t.lookup (jobKey jobId) with
      | none => t
      | some row => t.insert (jobKey jobId) (setAttrs (startedAttrs stamp.text) row) := by
  have hc : ∀ ans t', onTable (.updateItem (jobKey jobId) (startedAttrs stamp.text) true) () t = .ok (ans, t') →
      executed jobId stamp t = t' := fun ans t' hc =>
    congrArg Prod.snd (show exec (clockAt stamp) (markJobStartedActivity jobId) t = (.ok (), t') from
      exec_answered (h := clockAt stamp) (o := .inl (.updateItem _ _ _)) (k := fun _ => done ()) (a := ans) hc)
  cases h : t.lookup (jobKey jobId) with
  | none => exact hc false t (by simp only [onTable, dynamo, h]; rfl)
  | some row => exact hc true _ (by simp only [onTable, dynamo, h]; rfl)

theorem executed_other {key : Key} (hk : key ≠ jobKey jobId) : (executed jobId stamp t).lookup key = t.lookup key := by
  rw [executed_eq]
  split
  · rfl
  · exact AList.lookup_insert_ne hk

theorem executed_row (h : t.lookup (jobKey jobId) = some row) :
    (executed jobId stamp t).lookup (jobKey jobId) = some (setAttrs (startedAttrs stamp.text) row) := by
  rw [executed_eq, h]
  exact AList.lookup_insert _

/-- What an execution may do to the table. -/
structure OnlyStamps (jobId : String) (t t' : Table) : Prop where
  noRow : t.lookup (jobKey jobId) = none → t' = t
  others : ∀ key, key ≠ jobKey jobId → t'.lookup key = t.lookup key
  attrs : ∀ row, t.lookup (jobKey jobId) = some row → ∃ row', t'.lookup (jobKey jobId) = some row' ∧
    ∀ name, name ≠ "started_at" → name ≠ "status" → row'.lookup name = row.lookup name

/-- An execution creates no row, and stamps the job's row alone. -/
theorem markJobStarted_only (jobId : String) (stamp : Stamp) (t : Table) :
    OnlyStamps jobId t (executed jobId stamp t) where
  noRow h := by rw [executed_eq, h]
  others key hk := executed_other hk
  attrs row h := by
    refine ⟨_, executed_row h, fun name hstarted hstatus => ?_⟩
    rw [setAttrs_lookup]
    simp [startedAttrs, List.lookup_cons, beq_eq_false_iff_ne.mpr hstarted, beq_eq_false_iff_ne.mpr hstatus]

/-! ## Runs -/

structure StartState where
  table : Table
  /-- The stamps each job's present row has taken. -/
  stamps : String → List Stamp

inductive StartAction
  /-- An execution of `mark_job_started` lands. -/
  | mark (jobId : String) (stamp : Stamp)
  | create (job : Job)
  | delete (jobId : String)

def StartState.step (s : StartState) : StartAction → Option StartState
  | .mark jobId stamp => some
    { table := executed jobId stamp s.table
      stamps := if (s.table.lookup (jobKey jobId)).isSome then
        Function.update s.stamps jobId (s.stamps jobId ++ [stamp]) else s.stamps }
  | .create job =>
    let (put, t) := exec onTable (putJob job) s.table
    some { table := t, stamps := if put.isOk then Function.update s.stamps job.jobId [] else s.stamps }
  | .delete jobId => some
    { table := (exec onTable (deleteJob jobId) s.table).2, stamps := Function.update s.stamps jobId [] }

/-- A table whose rows have taken no stamp. -/
def StartState.unstamped (t : Table) : StartState := ⟨t, fun _ => []⟩

/-- `started_at` is the time of the earliest execution that stamped the
present row of the job. -/
def StartState.Earliest (s : StartState) (jobId : String) : Prop :=
  ∀ row, s.table.lookup (jobKey jobId) = some row → s.stamps jobId ≠ [] →
    ∃ first ∈ s.stamps jobId, row.lookup "started_at" = some (.str first.text) ∧
      ∀ stamp ∈ s.stamps jobId, first.instant ≤ stamp.instant

/-- An execution that finds the row read the clock no later than those that
have stamped it. -/
def InOrder (_ : List StartAction) (s : StartState) : StartAction → Prop
  | .mark jobId stamp => (s.table.lookup (jobKey jobId)).isSome → ∀ e ∈ s.stamps jobId, stamp.instant ≤ e.instant
  | _ => True

variable {s s' : StartState} {history : List StartAction}

/-- What a put of a job's row does. -/
theorem putJob_exec {job : Job} (hrow : serializeDict (jobItem job) = some row) (t : Table) :
    exec onTable (putJob job) t = (.ok (), t.insert (jobKey job.jobId) row) :=
  exec_answered (h := onTable) (o := .putItem (jobKey job.jobId) (jobItem job) false) (k := fun _ => done ()) (a := true)
    (by simp only [onTable, dynamo, hrow, Bool.false_and]; rfl)

theorem putJob_refused {job : Job} (hrow : serializeDict (jobItem job) = none) (t : Table) :
    exec onTable (putJob job) t = (.error .notStorable, t) :=
  exec_raised (h := onTable) (o := .putItem (jobKey job.jobId) (jobItem job) false) (k := fun _ => done ())
    (by simp only [onTable, dynamo, hrow]; rfl)

/-- The stamps of a job are in its row alone. -/
theorem StartState.Earliest.congr (h : s.Earliest jobId)
    (hrow : s'.table.lookup (jobKey jobId) = s.table.lookup (jobKey jobId)) (hst : s'.stamps jobId = s.stamps jobId) :
    s'.Earliest jobId := by
  simpa only [StartState.Earliest, hrow, hst] using h

/-- A row that has taken no stamp. -/
theorem StartState.Earliest.none (h : s.stamps jobId = []) : s.Earliest jobId := fun _ _ hne => absurd h hne

/-- An execution in order leaves its own stamp, the earliest yet. -/
theorem earliest_mark (ho : InOrder history s (.mark jobId stamp)) (hs : s.step (.mark jobId stamp) = some s') :
    s'.Earliest jobId := by
  cases hs
  intro row hrow hne
  cases hold : s.table.lookup (jobKey jobId) with
  | none =>
    simp only [executed_eq, hold] at hrow
    cases hrow
  | some old =>
    simp only [executed_row hold] at hrow
    cases hrow
    simp only [Option.isSome_some, if_true, Function.update_self, List.mem_append, List.mem_singleton]
    refine ⟨stamp, .inr rfl, by rw [setAttrs_lookup]; rfl, fun e he => ?_⟩
    rcases he with he | rfl
    · exact ho (by rw [hold]; rfl) e he
    · exact le_refl _

theorem startedAt_step {a : StartAction} (hI : ∀ jobId, s.Earliest jobId) (ho : InOrder history s a)
    (hs : s.step a = some s') (jobId : String) : s'.Earliest jobId := by
  cases a with
  | mark id stamp =>
    by_cases hid : jobId = id
    · subst hid
      exact earliest_mark ho hs
    · cases hs
      refine (hI jobId).congr (executed_other (mt jobKey_inj.mp hid)) ?_
      dsimp only
      split
      · exact Function.update_of_ne hid ..
      · rfl
  | create job =>
    cases hrow : serializeDict (jobItem job) with
    | none =>
      simp only [StartState.step, putJob_refused hrow, Option.some.injEq] at hs
      subst hs
      exact hI jobId
    | some row =>
      simp only [StartState.step, putJob_exec hrow, Option.some.injEq] at hs
      subst hs
      by_cases hid : jobId = job.jobId
      · subst hid
        exact .none (Function.update_self ..)
      · exact (hI jobId).congr (AList.lookup_insert_ne (mt jobKey_inj.mp hid)) (Function.update_of_ne hid ..)
  | delete id =>
    cases hs
    by_cases hid : jobId = id
    · subst hid
      exact .none (Function.update_self ..)
    · exact (hI jobId).congr (AList.lookup_erase_ne (mt jobKey_inj.mp hid)) (Function.update_of_ne hid ..)

/-- In every run in which each execution that finds the row read the clock no
later than those that have stamped it, an execution does no more than stamp
the row, and `started_at` is the time of the earliest. -/
theorem startedAt_earliest (t : Table) (history : List StartAction) (s : StartState)
    (inOrder : Along StartState.step InOrder (.unstamped t) history)
    (hr : Machine.run StartState.step (.unstamped t) history = some s) (jobId : String) :
    (∀ stamp, OnlyStamps jobId s.table (executed jobId stamp s.table)) ∧ s.Earliest jobId := by
  refine ⟨fun stamp => markJobStarted_only jobId stamp s.table, ?_⟩
  have hstep : ∀ history s a s', (∀ jobId, s.Earliest jobId) → InOrder history s a → StartState.step s a = some s' →
      ∀ jobId, s'.Earliest jobId := fun history s a s' hI ho hs => startedAt_step hI ho hs
  exact Machine.run_keeps_along (I := fun _ s => ∀ jobId, s.Earliest jobId) (fun jobId => .none (s := .unstamped t) rfl)
    hstep inOrder hr jobId

/-- A put gives a job no stamps. -/
theorem stamps_create {job : Job} (h : s.stamps jobId = []) (hs : s.step (.create job) = some s') :
    s'.stamps jobId = [] := by
  cases hs
  dsimp only
  split
  · rw [Function.update_apply]
    split
    · rfl
    · exact h
  · exact h

/-- The clock of a first attempt, and of its retry a minute later. -/
def firstStamp : Stamp := ⟨"2026-09-02T14:02:00+00:00", 1788357720000000, by decide +kernel⟩

def retryStamp : Stamp := ⟨"2026-09-02T14:03:00+00:00", 1788357780000000, by decide +kernel⟩

def startedJob : Job := ⟨"job-1", "acme", "invoice-processing", "job-1", .queued, 2, "2026-09-02T14:00:00+00:00", none, none⟩

/-- The first attempt lands after its retry. -/
theorem startedAt_earliest_late :
    let history := [.create startedJob, .mark "job-1" retryStamp, .mark "job-1" firstStamp]
    ∃ s, Machine.run StartState.step (.unstamped ∅) history = some s ∧
      (∀ stamp, OnlyStamps "job-1" s.table (executed "job-1" stamp s.table)) ∧ s.Earliest "job-1" := by
  intro history
  obtain ⟨s, hs⟩ : ∃ s, Machine.run StartState.step (.unstamped ∅) history = some s := ⟨_, rfl⟩
  refine ⟨s, hs, startedAt_earliest ∅ history s (along_cons trivial fun s₁ h₁ => ?_) hs _⟩
  have hnone : s₁.stamps "job-1" = [] := stamps_create rfl h₁
  refine along_cons (fun _ e he => ?_) fun s₂ h₂ => along_cons (fun _ e he => ?_) fun _ _ => along_nil _ _
  · rw [hnone] at he
    cases he
  · have hone : ∀ e ∈ s₂.stamps "job-1", e = retryStamp := by
      cases h₂
      dsimp only
      split <;> simp [hnone]
    rw [hone e he]
    decide

/-- A retry of an execution that landed moves the stamp to its own time. -/
theorem startedAt_retried :
    let history := [.create startedJob, .mark "job-1" firstStamp, .mark "job-1" retryStamp]
    ∃ s, Machine.run StartState.step (.unstamped ∅) history = some s ∧ ¬ s.Earliest "job-1" := by
  intro history
  obtain ⟨row, hrow⟩ : ∃ row, serializeDict (jobItem startedJob) = some row :=
    Option.isSome_iff_exists.mp (serializeDict_isSome_iff.mpr (by decide +kernel))
  obtain ⟨s₁, h₁⟩ : ∃ s, StartState.step (.unstamped ∅) (.create startedJob) = some s := ⟨_, rfl⟩
  have hput : s₁.table.lookup (jobKey "job-1") = some row := by
    simp only [StartState.step, putJob_exec hrow, Option.some.injEq] at h₁
    rw [← h₁]
    exact AList.lookup_insert _
  obtain ⟨s₂, h₂⟩ : ∃ s, s₁.step (.mark "job-1" firstStamp) = some s := ⟨_, rfl⟩
  obtain ⟨s₃, h₃⟩ : ∃ s, s₂.step (.mark "job-1" retryStamp) = some s := ⟨_, rfl⟩
  have hrow₂ : (executed "job-1" firstStamp s₁.table).lookup (jobKey "job-1") = _ := executed_row hput
  refine ⟨s₃, by simp only [history, Machine.run_cons, h₁, h₂, h₃, Option.bind_eq_bind, Option.bind_some]; rfl, fun h => ?_⟩
  cases h₂
  cases h₃
  simp only [StartState.Earliest, hput, hrow₂, executed_row hrow₂, Option.isSome_some, if_true, Function.update_self,
    Option.some.injEq, forall_eq'] at h
  obtain ⟨first, -, hstarted, hle⟩ := h (by simp)
  have hle := hle firstStamp (by simp)
  rw [setAttrs_lookup] at hstarted
  have htext : retryStamp.text = first.text := Value.str.inj (Option.some.inj hstarted)
  have hinstant : some retryStamp.instant = some first.instant := by rw [← retryStamp.reads, htext, first.reads]
  rw [← Option.some.inj hinstant] at hle
  exact absurd hle (by decide)

end ControlPlane
