import ControlPlane.Datetime
import ControlPlane.Registry.Rows
import ControlPlane.Registry.Scans
import ControlPlane.Sessions

/-!
# The job index in time order

A job's row is in the index under its tenant and the text of its creation's
time, which DynamoDB orders as text. `startSession` and `submitOne` write the
time as `datetime.isoformat` does, and such texts compare as the times
(`Datetime.cmp_isoformat`).

* `Timed`: what holds of every row, in every state of every run of
  submissions and other operations (`timed_run`).
* `jobIndex_timeOrder`: `listJobsForTenant` then lists the newest jobs first,
  and of a limited list none is older than a job it leaves out.
-/

namespace ControlPlane

open Effect Effect.Prog

/-! ## Runs -/

/-- What a call finds: a read some version of the table, and of it the part
`page` keeps; the clock a time. -/
structure Glimpse where
  seen : Table
  page : List Row → List Row
  instant : Datetime

def Glimpse.finding (g : Glimpse) : Finding := ⟨g.seen, g.page, g.instant.isoformat⟩

/-- Calls that find the time as the clock writes it. -/
def clocked : Handler ClientSig Raised Glimpse Fleet := fleetCalls.choosing Glimpse.finding

/-- A submission, or an operation that puts no job. -/
inductive JobTask
  | submission (s : Submission)
  | operation (o : Operation) (h : ∀ job, o ≠ .putJob job)

section

variable [Pydantic]

def JobTask.prog : JobTask → Client String
  | submission s => s.prog
  | operation o _ => do
    repo o.prog
    return ""

/-- Submissions and operations, about to start on an empty table. -/
def jobTasks {ι : Type} (task : ι → JobTask) : Submitting ι := ⟨⟨∅, []⟩, fun i => (task i).prog.lossy .requestError⟩

/-- The table after some of their calls, any of which may raise. -/
def jobTable {ι : Type} [DecidableEq ι] (task : ι → JobTask) (sched : List (ι × Fate × Glimpse)) : Table :=
  ((jobTasks task).run (fun _ => clocked.lossy) sched).world.table

end

/-! ## Rows -/

/-- A row in the index is there under its job's tenant, and the time its job
was created. -/
def Timed (row : Attrs) : Prop := ∀ tenantId sk, indexKey row = some (tenantId, sk) →
  row.lookup "tenant_id" = some (.str tenantId) ∧
    ∃ d : Datetime, sk = d.isoformat ∧ row.lookup "created_at" = some (.str d.isoformat)

theorem timed_of_none {row : Attrs} (h : row.lookup "gsi1_pk" = none) : Timed row := fun _ _ hk => by
  simp [indexKey, h] at hk

/-- The row a submission puts. -/
theorem timed_queuedJob {jobId tenantId agentId : String} {d : Datetime} {priority : Priority} {row : Attrs}
    (h : serializeDict (jobItem (queuedJob jobId tenantId agentId d.isoformat priority)) = some row) : Timed row := by
  have hl := serializeDict_lookup h
  intro tenant sk hk
  have hindex : indexKey row = some (tenantId, d.isoformat) := by
    simp only [indexKey, hl]
    rfl
  rw [hindex] at hk
  cases hk
  exact ⟨(hl "tenant_id").trans rfl, d, rfl, (hl "created_at").trans rfl⟩

/-- The attributes the index goes by. -/
def indexAttrs : List String := ["gsi1_pk", "gsi1_sk", "tenant_id", "created_at"]

theorem timed_setAttrs {new old : Attrs} (hnew : ∀ name ∈ indexAttrs, new.lookup name = none) (h : Timed old) :
    Timed (setAttrs new old) := by
  have hl : ∀ name ∈ indexAttrs, (setAttrs new old).lookup name = old.lookup name := fun name hn => by
    rw [setAttrs_lookup, hnew name hn, Option.none_or]
  have hindex : indexKey (setAttrs new old) = indexKey old := by
    simp only [indexKey, hl "gsi1_pk" (by decide), hl "gsi1_sk" (by decide)]
  intro tenantId sk hk
  rw [hl "tenant_id" (by decide), hl "created_at" (by decide)]
  exact h tenantId sk (hindex ▸ hk)

/-- A call that puts such a row, or sets none of those attributes. -/
def Timely : DynamoOp → Prop
  | .putItem _ attrs _ => ∀ row, serializeDict attrs = some row → Timed row
  | .updateItem _ set _ => ∀ name ∈ indexAttrs, set.lookup name = none
  | _ => True

def TimelyCall : ClientSig.Op → Prop
  | .inl o => Timely o
  | .inr _ => True

/-- Every row is so. -/
def TimedRows (t : Table) : Prop := ∀ key row, t.lookup key = some row → Timed row

section

variable {page : List Row → List Row} {seen t t' : Table} {o : DynamoOp} {ans : o.Ans}

theorem TimedRows.insert (h : TimedRows t) {key : Key} {row : Attrs} (hr : Timed row) : TimedRows (t.insert key row) := by
  intro k r hl
  by_cases hk : k = key
  · rw [hk, AList.lookup_insert] at hl
    cases hl
    exact hr
  · rw [AList.lookup_insert_ne hk] at hl
    exact h k r hl

theorem TimedRows.erase (h : TimedRows t) (key : Key) : TimedRows (t.erase key) := by
  intro k r hl
  by_cases hk : k = key
  · rw [hk, AList.lookup_erase] at hl
    cases hl
  · rw [AList.lookup_erase_ne hk] at hl
    exact h k r hl

theorem TimedRows.call (h : TimedRows t) (ho : Timely o) (hc : dynamo page seen o t = .ok (ans, t')) : TimedRows t' := by
  cases o with
  | putItem key attrs ifAbsent =>
    obtain ⟨row, hs, ⟨-, rfl, -⟩ | ⟨-, rfl, -⟩⟩ := dynamo_put hc
    · exact h
    · exact h.insert (ho row hs)
  | updateItem key set ifPresent =>
    obtain ⟨new, hs, ⟨-, rfl, -⟩ | ⟨-, rfl, -⟩⟩ := dynamo_update hc
    · exact h
    · have hnew : ∀ name ∈ indexAttrs, new.lookup name = none := fun name hn => by
        rw [serializeDict_lookup hs, ho name hn]
        rfl
      refine h.insert (timed_setAttrs hnew ?_)
      cases hl : t.lookup key with
      | none => exact timed_of_none rfl
      | some old => exact h key old hl
  | deleteItem key =>
    cases hc
    exact h.erase key
  | _ =>
    cases hc
    exact h

end

/-! ## Every run -/

section

variable [Pydantic]

omit [Pydantic] in
theorem timely_of_acts {e : Entity} (he : ∀ id, e ≠ .job id) {o : DynamoOp} (ha : Acts e o) : Timely o := by
  cases o with
  | putItem key attrs ifAbsent =>
    obtain ⟨-, hst⟩ := ha
    intro row hs
    refine timed_of_none ?_
    by_contra hi
    obtain ⟨id, hid⟩ := (own_stored hst hs).index hi
    exact he id hid
  | updateItem key set ifPresent =>
    obtain ⟨-, hu⟩ := ha
    cases hu with
    | started jobId startedAt => exact absurd rfl (he jobId)
    | completed key result => exact fun name hn => by fin_cases hn <;> rfl
  | _ => trivial

theorem calls_timely {o : Operation} (h : ∀ job, o ≠ .putJob job) : Calls Timely o.prog := by
  have hother (hne : ∀ id, o.entity ≠ .job id) : Calls Timely o.prog := by
    refine (calls_actsFor o).mono fun c hc => ?_
    obtain ⟨e, ha, he⟩ := hc
    exact timely_of_acts (fun id hid => hne id (he id hid)) ha
  cases o with
  | putJob job => exact absurd rfl (h job)
  | deleteJob jobId => exact ⟨trivial, fun _ => trivial⟩
  | markJobStarted jobId startedAt => exact ⟨fun name hn => by fin_cases hn <;> rfl, fun _ => trivial⟩
  | read e =>
    have hget : Calls Timely e.get := (e.calls_get (f := .fairness)).mono fun _ ha =>
      timely_of_acts (fun _ he => Entity.noConfusion he) ha
    exact hget.bind fun _ => trivial
  | _ => exact hother fun id he => Entity.noConfusion he

/-- A program that keeps the rows timed, whatever others do that keep them timed. -/
abbrev KeepsTimed {α : Type} (p : Client α) (w : Fleet) : Prop :=
  Guarded clocked (fun w => TimedRows w.table) (fun _ _ => True) (fun _ _ => True) (fun _ _ => True) p w

omit [Pydantic] in
theorem fleetTable_ok {o : DynamoOp} {f : Finding} {w w' : Fleet} {ans : o.Ans} (h : fleetTable o f w = .ok (ans, w')) :
    dynamo f.page f.seen o w.table = .ok (ans, w'.table) := by
  simp only [fleetTable] at h
  split at h
  · cases h
  · rename_i a t hd
    cases h
    exact hd

omit [Pydantic] in
/-- A call on the table that is timely, and any call elsewhere. -/
theorem clocked_keeps {o : ClientSig.Op} (ho : TimelyCall o) {g : Glimpse} {w w' : Fleet}
    {ans : ClientSig.Ans o} (hw : TimedRows w.table) (h : clocked o g w = .ok (ans, w')) : TimedRows w'.table := by
  obtain o | o | o := o
  · exact hw.call ho (fleetTable_ok (o := o) h)
  · cases h
    exact hw
  · cases o with
    | connect =>
      cases h
      exact hw
    | startWorkflow input id taskQueue priority tenantId =>
      have ht : fleetTemporal (.startWorkflow input id taskQueue priority tenantId) g.finding w = .ok (ans, w') := h
      simp only [fleetTemporal] at ht
      split at ht
      · cases ht
      · cases ht
        exact hw

omit [Pydantic] in
theorem keepsTimed_of_calls {α : Type} {p : Client α} (hp : Calls TimelyCall p) (w : Fleet) :
    KeepsTimed p w :=
  (Guarded.of_calls (A := fun _ => True) (fun _ _ _ _ => trivial)
    (fun _ _ _ _ _ ho hw _ h => ⟨clocked_keeps ho hw h, trivial, trivial⟩) hp trivial).mono fun _ _ _ => trivial

omit [Pydantic] in
theorem timely_of_looks {o : ClientSig.Op} (ho : Looks o) : TimelyCall o := by
  obtain o | o := o
  · cases o with
    | putItem key attrs ifAbsent => cases ho
    | updateItem key set ifPresent => cases ho
    | _ => trivial
  · trivial

omit [Pydantic] in
/-- From the clock on, a submission puts a row at the time it has read. -/
theorem keepsTimed_submit {jobId tenantId agentId : String} {priority : Priority} {rest : Client String}
    (hrest : Calls TimelyCall rest) (w : Fleet) :
    KeepsTimed (do
      let createdAt ← now
      repo (putJob (queuedJob jobId tenantId agentId createdAt priority))
      rest) w := by
  intro w₁ _ hw g instant w₂ hc
  refine ⟨clocked_keeps (o := .inr (.inl ())) trivial hw hc, trivial, ?_⟩
  cases hc
  have hput : Calls TimelyCall (do
      repo (putJob (queuedJob jobId tenantId agentId g.instant.isoformat priority))
      rest) := ⟨fun row hs => timed_queuedJob hs, fun _ => hrest⟩
  exact keepsTimed_of_calls hput _

theorem keepsTimed_prog (task : JobTask) (w : Fleet) : KeepsTimed task.prog w := by
  cases task with
  | operation o h =>
    have hcalls : Calls TimelyCall (repo o.prog) := Calls.inl (calls_timely h)
    have htask : Calls TimelyCall (JobTask.operation o h).prog := hcalls.bind fun _ => trivial
    exact keepsTimed_of_calls htask w
  | submission s =>
    cases s with
    | session taskQueue agentId tenantId prompt hex =>
      have hpriority := (looks_resolvePriority tenantId).mono fun _ => timely_of_looks
      have hversion := (looks_latestVersion agentId).mono fun _ => timely_of_looks
      refine ((keepsTimed_of_calls hpriority w).mono fun priority w₁ _ => ?_).bind
      refine ((keepsTimed_of_calls hversion w₁).mono fun agentVersion w₂ _ => ?_).bind
      refine keepsTimed_submit ?_ w₂
      exact ⟨trivial, fun _ => ⟨trivial, fun _ => trivial⟩⟩
    | member taskQueue tenantId agentId priority agentVersion hex =>
      refine keepsTimed_submit ?_ w
      exact ⟨trivial, fun _ => trivial⟩

/-- In every state of every run each row in the index is there under its
tenant and the time its job was created. -/
theorem timed_run {ι : Type} [DecidableEq ι] (task : ι → JobTask) (sched : List (ι × Fate × Glimpse)) :
    TimedRows (jobTable task sched) := by
  refine (Pool.run_guarded (I := fun w : Fleet => TimedRows w.table) (R := fun _ _ _ => True) (G := fun _ _ _ => True) (fun _ _ => trivial) (fun _ _ _ _ _ _ => trivial)
    (fun _ _ _ _ _ _ => trivial) ⟨fun key row hl => ?_, fun i => ?_⟩ sched).world
  · cases hl
  · exact Guarded.lossy (fun _ => trivial) (keepsTimed_prog (task i) _)

end

/-! ## The listing -/

/-- One job was created no later than the other. -/
def NoLater (a b : Job) : Prop :=
  ∃ d e : Datetime, a.createdAt = d.isoformat ∧ b.createdAt = e.isoformat ∧ d.micros ≤ e.micros

section

variable [Pydantic]

/-- What a listing of a tenant's jobs is to be: jobs of the tenant, as many as
the limit and the page allow, the newest first, and no job that is left out
newer than one that is not. -/
structure NewestFirst (tenantId : String) (limit : ℕ) (t : Table) (jobs : List Job) : Prop where
  tenant : ∀ job ∈ jobs, job.tenantId = tenantId
  length : jobs.length = min limit (firstPage (selectIndex tenantId t.entries)).length
  sorted : jobs.Pairwise fun a b => NoLater b a
  newest : ∀ r ∈ t.entries, (∃ sk, indexKey r.2 = some (tenantId, sk)) → ∀ other, jobFromItem r.2 = .ok other →
    other ∉ jobs → ∀ job ∈ jobs, NoLater other job

/-- What a job has of its row's tenant and creation. -/
theorem job_created {row : Attrs} {job : Job} (h : jobFromItem row = .ok job) :
    row.lookup "tenant_id" >>= fromDecimal = some (.str job.tenantId) ∧
      row.lookup "created_at" >>= fromDecimal = some (.str job.createdAt) := by
  obtain ⟨kw, hf, hk⟩ := ofItem_ok h
  have hb := construct_ok hk
  obtain ⟨_, -, hb⟩ := Option.bind_eq_some_iff.mp hb
  obtain ⟨tenantId, htenant, hb⟩ := Option.bind_eq_some_iff.mp hb
  iterate 4 obtain ⟨_, -, hb⟩ := Option.bind_eq_some_iff.mp hb
  obtain ⟨createdAt, hcreated, hb⟩ := Option.bind_eq_some_iff.mp hb
  iterate 2 obtain ⟨_, -, hb⟩ := Option.bind_eq_some_iff.mp hb
  cases hb
  obtain ⟨v, hv, hs⟩ := Option.bind_eq_some_iff.mp htenant
  obtain ⟨v', hv', hs'⟩ := Option.bind_eq_some_iff.mp hcreated
  rw [← lookup_filter_key (fun name => name ∉ ["gsi1_pk", "gsi1_sk"]) (by decide), ← fromDecimalDict_lookup hf, hv, asStr_eq hs,
    ← lookup_filter_key (fun name => name ∉ ["gsi1_pk", "gsi1_sk"]) (by decide), ← fromDecimalDict_lookup hf, hv', asStr_eq hs']
  exact ⟨rfl, rfl⟩

variable {t : Table} {tenantId : String} {limit : ℕ}

/-- The text a row is sorted by. -/
def sortKey (r : Row) : String := ((indexKey r.2).map Prod.snd).getD ""

omit [Pydantic] in
theorem selectIndex_sorted (tenantId : String) (rows : List Row) :
    (selectIndex tenantId rows).Pairwise fun a b => sortKey b ≤ sortKey a := by
  have : Std.Total fun a b : Row => sortKey b ≤ sortKey a := ⟨fun a b => le_total (sortKey b) (sortKey a)⟩
  have : IsTrans Row fun a b => sortKey b ≤ sortKey a := ⟨fun a b c hab hbc => hbc.trans hab⟩
  exact List.pairwise_insertionSort (fun a b : Row => sortKey b ≤ sortKey a) _

omit [Pydantic] in
/-- The rows a query returns are the first of those it selects. -/
theorem queried_front (tenantId : String) (limit : ℕ) (t : Table) :
    queried tenantId limit t <+: selectIndex tenantId t.entries :=
  (List.take_prefix _ _).trans (prefix_fitting _ _)

/-- A job that is read of a row in the index was created at the time the row
is sorted by. -/
theorem reads_timed {r : Row} (ht : Timed r.2) (hk : ∃ sk, indexKey r.2 = some (tenantId, sk)) {job : Job}
    (h : jobFromItem r.2 = .ok job) :
    job.tenantId = tenantId ∧ ∃ d : Datetime, sortKey r = d.isoformat ∧ job.createdAt = d.isoformat := by
  obtain ⟨sk, hk⟩ := hk
  obtain ⟨htenant, d, rfl, hcreated⟩ := ht tenantId sk hk
  obtain ⟨htenant', hcreated'⟩ := job_created h
  rw [htenant] at htenant'
  rw [hcreated] at hcreated'
  exact ⟨(Value.str.inj (Option.some.inj htenant')).symm, d, by rw [sortKey, hk]; rfl,
    (Value.str.inj (Option.some.inj hcreated')).symm⟩

theorem noLater_of_sorted {r r' : Row} (ht : Timed r.2) (ht' : Timed r'.2) (hk : ∃ sk, indexKey r.2 = some (tenantId, sk))
    (hk' : ∃ sk, indexKey r'.2 = some (tenantId, sk)) (hle : sortKey r' ≤ sortKey r) {job job' : Job}
    (h : jobFromItem r.2 = .ok job) (h' : jobFromItem r'.2 = .ok job') : NoLater job' job := by
  obtain ⟨-, d, hd, hcreated⟩ := reads_timed ht hk h
  obtain ⟨-, e, he, hcreated'⟩ := reads_timed ht' hk' h'
  refine ⟨e, d, hcreated', hcreated, Datetime.isoformat_le.mp ?_⟩
  rwa [← hd, ← he]

theorem listJobsForTenant_newest (ht : TimedRows t) {jobs : List Job}
    (h : (exec onPages (listJobsForTenant tenantId limit) t).1 = .ok jobs) : NewestFirst tenantId limit t jobs := by
  rw [listJobsForTenant_pages, List.mapM_map] at h
  have hrow {r : Row} (hr : r ∈ selectIndex tenantId t.entries) : Timed r.2 ∧ ∃ sk, indexKey r.2 = some (tenantId, sk) := by
    have hr := (Listing.mem_select (l := .jobsForTenant tenantId limit)).mp hr
    exact ⟨ht r.1 r.2 (AList.mem_lookup_iff.mpr hr.1), hr.2⟩
  have hsub := (queried_front tenantId limit t).subset
  obtain ⟨rest, hrest⟩ := queried_front tenantId limit t
  have hsorted := selectIndex_sorted tenantId t.entries
  rw [← hrest] at hsorted
  obtain ⟨hlisted, -, hleft⟩ := List.pairwise_append.mp hsorted
  refine ⟨fun job hj => ?_, ?_, ?_, fun r hr hk other hother hnot job hj => ?_⟩
  · obtain ⟨r, hr, hread⟩ := (mem_of_mapM h job).mp hj
    obtain ⟨htimed, hk⟩ := hrow (hsub hr)
    exact (reads_timed htimed hk hread).1
  · rw [length_of_mapM h, queried, List.length_take]
  · refine pairwise_of_mapM h (hlisted.imp_of_mem fun hr hr' hle job job' hread hread' => ?_)
    obtain ⟨htimed, hk⟩ := hrow (hsub hr)
    obtain ⟨htimed', hk'⟩ := hrow (hsub hr')
    exact noLater_of_sorted htimed htimed' hk hk' hle hread hread'
  · obtain ⟨r', hr', hread⟩ := (mem_of_mapM h job).mp hj
    obtain ⟨htimed', hk'⟩ := hrow (hsub hr')
    have hselect : r ∈ selectIndex tenantId t.entries :=
      (Listing.mem_select (l := .jobsForTenant tenantId limit)).mpr ⟨hr, hk⟩
    rw [← hrest] at hselect
    obtain hin | hout := List.mem_append.mp hselect
    · exact absurd ((mem_of_mapM h other).mpr ⟨r, hin, hother⟩) hnot
    · have htimed := ht r.1 r.2 (AList.mem_lookup_iff.mpr hr)
      exact noLater_of_sorted htimed' htimed hk' hk (hleft r' hr' r hout) hread hother

/-- The texts of times compare as the times do, and so in every state of every
run a listing of a tenant's jobs is the newest first. -/
theorem jobIndex_timeOrder : (∀ a b : Datetime, cmp a.isoformat b.isoformat = cmp a.micros b.micros) ∧
    ∀ {ι : Type} [DecidableEq ι] (task : ι → JobTask) (sched : List (ι × Fate × Glimpse)) (tenantId : String) (limit : ℕ)
      (jobs : List Job), (exec onPages (listJobsForTenant tenantId limit) (jobTable task sched)).1 = .ok jobs →
        NewestFirst tenantId limit (jobTable task sched) jobs :=
  ⟨Datetime.cmp_isoformat, fun task sched _ _ _ h => listJobsForTenant_newest (timed_run task sched) h⟩

end

/-- 14:02:00, and so many microseconds. -/
def afternoon (microsecond : ℕ) (h : microsecond < 1000000) : Datetime where
  year := 2026
  month := 9
  day := 2
  hour := 14
  minute := 2
  second := 0
  microsecond := microsecond
  year_bound := by decide
  month_bound := by decide
  day_bound := by decide
  time_bound := ⟨by decide, by decide, by decide, h⟩

example : (afternoon 0 (by decide)).isoformat = "2026-09-02T14:02:00+00:00" ∧
    (afternoon 250 (by decide)).isoformat = "2026-09-02T14:02:00.000250+00:00" := by decide +kernel

/-- Two members of a flood. -/
def twoMembers (i : Fin 2) : JobTask :=
  .submission (.member "jobs" "acme" "incident-triage" { priorityKey := 3 } 1 (if i = 0 then "0f3a9c21" else "7bd41e90"))

/-- Each member's three calls, one member after the other. -/
def inTurn : List (Fin 2 × Fate × Glimpse) :=
  List.replicate 3 (0, .answered, ⟨∅, id, afternoon 0 (by decide)⟩) ++
    List.replicate 3 (1, .answered, ⟨∅, id, afternoon 250 (by decide)⟩)

theorem jobIndex_timeOrder_twoMembers :
    letI := digits
    ∃ jobs, (exec onPages (listJobsForTenant "acme" 1) (jobTable twoMembers inTurn)).1 = .ok jobs ∧
      NewestFirst "acme" 1 (jobTable twoMembers inTurn) jobs := by
  let _ := digits
  have hok : (exec onPages (listJobsForTenant "acme" 1) (jobTable twoMembers inTurn)).1.isOk = true := by decide +kernel
  obtain ⟨jobs, hjobs⟩ : ∃ jobs, (exec onPages (listJobsForTenant "acme" 1) (jobTable twoMembers inTurn)).1 = .ok jobs := by
    cases h : (exec onPages (listJobsForTenant "acme" 1) (jobTable twoMembers inTurn)).1 with
    | error e =>
      rw [h] at hok
      cases hok
    | ok jobs => exact ⟨jobs, rfl⟩
  exact ⟨jobs, hjobs, jobIndex_timeOrder.2 twoMembers inTurn "acme" 1 jobs hjobs⟩

end ControlPlane
