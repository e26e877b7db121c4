import ControlPlane.Activities.JobStarted
import ControlPlane.Registry.ByValue
import ControlPlane.Registry.Scans
import ControlPlane.Sessions

/-!
# The queued count

`tenant_queued`, of `app/registry/fleet.py`: how many rows of the tenant's
newest 500 say `queued`. A submission writes such a row and then starts the
job's workflow; the first thing a worker does with it is to have
`mark_job_started` flip the row, in three attempts at most, and it goes on
where all of them fail.

* `QueueInv.step`: while no submission is left half done and of each beginning
  an attempt lands, a row says `queued` exactly if its job waits.
* `tenantQueued_exact_iff`: the count is then exact where the query returns
  the row of every job that waits, and only there.
* `tenantQueued_stale`: a job whose three attempts fail is counted as queued
  though it has begun.
-/

namespace ControlPlane

open Effect Effect.Prog
open Machine (Along along_nil along_cons)

/-- Jobs submitted but not yet picked up by a worker. -/
def tenantQueued [Pydantic] (tenantId : String) : Repo ℕ := do
  let jobs ← listJobsForTenant tenantId 500
  return jobs.countP fun job => job.status = .queued

/-- A job that `startSession` or `submitOne` submits; its priority is one that
was read from the tenant's row. -/
structure Submitted where
  jobId : String
  tenantId : String
  agentId : String
  createdAt : String
  priority : Priority
  small : priority.priorityKey.natAbs < 10 ^ 28

def Submitted.job (j : Submitted) : Job := queuedJob j.jobId j.tenantId j.agentId j.createdAt j.priority

/-- A priority that was read from the row of a tenant that was put. -/
theorem resolvePriority_small [Pydantic] {tenant : Tenant} {row : Attrs} {t : Table} {tenantId : String}
    {priority : Priority} (hs : serializeDict (toDecimalDict tenant.modelDump) = some row)
    (hl : t.lookup (tenantKey tenantId) = some row)
    (h : (exec onTable (resolvePriority tenantId) t).1 = .ok priority) : priority.priorityKey.natAbs < 10 ^ 28 := by
  rw [resolvePriority, exec_bind, getTenant, exec_getRow, hl] at h
  cases hread : ofItem Tenant.ofKwargs row with
  | error e =>
    rw [readRow, hread] at h
    cases h
  | ok found =>
    have hkey : found.priorityKey.natAbs < 10 ^ 28 := by
      obtain ⟨p, w, hp, hw, rfl⟩ := serialize_tenant.mp hs
      obtain ⟨p', w', n, x, hp', hw', hn, hx, rfl⟩ := ofItem_tenantRow.mp hread
      rw [serialize] at hp
      split at hp <;> cases hp
      rw [fromDecimal, numberOfDecimal, Rat.num_intCast, Rat.den_intCast, Nat.div_one] at hp'
      split at hp'
      · cases hp'
      · rename_i hlong
        cases hp'
        cases hn
        exact not_le.mp hlong
    have hchecked {p : Priority} (hp : p.priorityKey = found.priorityKey) (w : Table)
        (h : (exec onTable (Prog.ofExcept p.checked) w).1 = .ok priority) : priority.priorityKey.natAbs < 10 ^ 28 := by
      unfold Priority.checked at h
      split at h <;> cases h
      rw [hp]
      exact hkey
    rw [readRow, hread] at h
    simp only [Except.map, exec_bind] at h
    split at h
    · split at h
      · exact hchecked rfl _ h
      · exact hchecked rfl _ h
    · cases h

/-! ## A job's row -/

/-- The row of a job that is submitted. -/
def Submitted.row (j : Submitted) : Attrs :=
  [("job_id", .str j.jobId), ("tenant_id", .str j.tenantId), ("agent_id", .str j.agentId),
    ("workflow_id", .str j.jobId), ("status", .str "queued"),
    ("priority_key", .decimal (.fin j.priority.priorityKey)), ("created_at", .str j.createdAt),
    ("started_at", .null), ("completed_at", .null), ("gsi1_pk", .str j.tenantId), ("gsi1_sk", .str j.createdAt)]

theorem Submitted.serialize_row {j : Submitted} {row : Attrs} (h : serializeDict (jobItem j.job) = some row) :
    row = j.row := by
  simp only [jobItem, Submitted.job, queuedJob, Job.modelDump, JobStatus.value, dumpOption, toDecimalDict, toDecimal,
    List.cons_append, List.nil_append, serializeDict, serialize] at h
  split at h
  · cases h
    rfl
  · cases h

/-- What is read of a job's row: its job, with the status and the start found. -/
theorem Submitted.reads [Pydantic] (j : Submitted) :
    jobFromItem j.row = .ok j.job ∧ ∀ text, jobFromItem (setAttrs (startedAttrs text) j.row) =
      .ok { j.job with status := .running, startedAt := some text } := by
  have hp := numberOfDecimal_int j.small
  refine ⟨?_, fun text => ?_⟩
  · have hd : fromDecimalDict (j.row.filter fun kv => kv.1 ∉ ["gsi1_pk", "gsi1_sk"]) = some j.job.modelDump := by
      simp [Submitted.row, fromDecimalDict, fromDecimal, hp]
      rfl
    rw [jobFromItem, ofItem, decode, hd]
    rfl
  · have hd : fromDecimalDict ((setAttrs (startedAttrs text) j.row).filter fun kv => kv.1 ∉ ["gsi1_pk", "gsi1_sk"]) =
        some (startedAttrs text ++ j.job.modelDump.filter fun kv => kv.1 ∉ ["started_at", "status"]) := by
      simp [setAttrs, startedAttrs, Submitted.row, fromDecimalDict, fromDecimal, hp]
      rfl
    rw [jobFromItem, ofItem, decode, hd]
    rfl

theorem Submitted.indexKey_row (j : Submitted) : indexKey j.row = some (j.tenantId, j.createdAt) := rfl

theorem indexKey_started (text : String) (row : Attrs) : indexKey (setAttrs (startedAttrs text) row) = indexKey row := by
  simp only [indexKey, setAttrs_lookup]
  rfl

theorem isNone_startedAttrs (text name : String) :
    ((startedAttrs text).lookup name).isNone = (name ≠ "started_at" ∧ name ≠ "status" : Bool) := by
  by_cases hstarted : name = "started_at"
  · simp [startedAttrs, hstarted]
  · by_cases hstatus : name = "status"
    · simp [startedAttrs, hstatus, List.lookup_cons]
    · simp [startedAttrs, List.lookup_cons, beq_eq_false_iff_ne.mpr hstarted, beq_eq_false_iff_ne.mpr hstatus, hstarted,
        hstatus]

/-- A later stamp replaces an earlier one. -/
theorem setAttrs_startedAttrs (text text' : String) (row : Attrs) :
    setAttrs (startedAttrs text) (setAttrs (startedAttrs text') row) = setAttrs (startedAttrs text) row := by
  have hset : (startedAttrs text').filter (fun kv => (kv.1 ≠ "started_at" ∧ kv.1 ≠ "status" : Bool)) = [] := rfl
  simp only [setAttrs, isNone_startedAttrs, List.filter_append, hset, List.filter_filter, Bool.and_self, List.nil_append]

/-! ## Submissions and workers -/

structure QueueState where
  table : Table
  submitted : List Submitted
  /-- The jobs whose workflow Temporal accepted. -/
  accepted : List String
  /-- The jobs a worker has begun. -/
  begun : List String

inductive QueueAction
  /-- The job's row is put, and its workflow accepted or not. -/
  | submit (job : Submitted) (accepted : Bool)
  /-- A worker begins the job, with these attempts at `mark_job_started`. -/
  | start (jobId : String) (attempts : List (Fate × Stamp))
  /-- Any row that is no job's, and not in the index. -/
  | other (key : Key) (hk : ∀ jobId, key ≠ jobKey jobId) (row : Option { row : Attrs // indexKey row = none })

/-- Whether an activity of at most `n` attempts, each retried until one
succeeds, has these. -/
def attemptsOf : ℕ → List Fate → Bool
  | 0, _ => false
  | _ + 1, [] => false
  | n + 1, [fate] => fate = .answered ∨ n = 0
  | n + 1, fate :: fates => fate ≠ .answered ∧ attemptsOf n fates

/-- An attempt, which does nothing where the call is refused. -/
def startAttempt (jobId : String) (t : Table) (a : Fate × Stamp) : Table :=
  if a.1 = .refused then t else executed jobId a.2 t

/-- A job's put and its workflow's acceptance are one step here, and so are a
job's beginning and its marks: the states between are those of a submission
half done and of a job that has begun with no mark landed, which `Lands` leaves
out. A query reads the index as it is. -/
def QueueState.step (s : QueueState) : QueueAction → Option QueueState
  | .submit job accepted =>
    if job.jobId ∈ s.submitted.map Submitted.jobId then none
    else match exec onTable (putJob job.job) s.table with
      | (.error _, _) => none
      | (.ok (), t) => some { s with
          table := t
          submitted := job :: s.submitted
          accepted := if accepted then job.jobId :: s.accepted else s.accepted }
  | .start jobId attempts =>
    if jobId ∈ s.accepted ∧ jobId ∉ s.begun ∧ attemptsOf 3 (attempts.map Prod.fst) then
      some { s with table := attempts.foldl (startAttempt jobId) s.table, begun := jobId :: s.begun }
    else none
  | .other key _ (some row) => some { s with table := s.table.insert key row.1 }
  | .other key _ none => some { s with table := s.table.erase key }

/-- The job was accepted, and no worker has begun it. -/
def QueueState.Waits (s : QueueState) (job : Submitted) : Prop := job.jobId ∈ s.accepted ∧ job.jobId ∉ s.begun

instance (s : QueueState) (job : Submitted) : Decidable (s.Waits job) :=
  inferInstanceAs (Decidable (_ ∧ _))

/-- The tenant's jobs that wait. -/
def QueueState.waiting (s : QueueState) (tenantId : String) : List Submitted :=
  s.submitted.filter fun job => job.tenantId = tenantId ∧ s.Waits job

/-- The submission is not left half done, or an attempt lands. -/
def Lands (_ : List QueueAction) (_ : QueueState) : QueueAction → Prop
  | .submit _ accepted => accepted = true
  | .start _ attempts => ∃ a ∈ attempts, a.1 ≠ .refused
  | .other _ _ _ => True

/-! ## What the rows say -/

/-- The row of a job that waits, or of one that was stamped. -/
def RowOf (s : QueueState) (job : Submitted) (row : Attrs) : Prop :=
  if s.Waits job then row = job.row else ∃ text, row = setAttrs (startedAttrs text) job.row

/-- A job's row says whether the job waits, and no other row is in the index. -/
structure QueueInv (s : QueueState) : Prop where
  nodup : (s.submitted.map Submitted.jobId).Nodup
  begun : ∀ id ∈ s.begun, id ∈ s.accepted
  accepted : ∀ id, id ∈ s.accepted ↔ id ∈ s.submitted.map Submitted.jobId
  row : ∀ job ∈ s.submitted, ∃ row, s.table.lookup (jobKey job.jobId) = some row ∧ RowOf s job row
  index : ∀ key row, s.table.lookup key = some row → (indexKey row).isSome → ∃ job ∈ s.submitted, key = jobKey job.jobId

variable {s s' : QueueState} {history : List QueueAction} {jobId : String} {t : Table}

theorem attempt_other {key : Key} (hk : key ≠ jobKey jobId) (attempts : List (Fate × Stamp)) :
    (attempts.foldl (startAttempt jobId) t).lookup key = t.lookup key := by
  induction attempts generalizing t with
  | nil => rfl
  | cons a attempts ih =>
    rw [List.foldl_cons, ih, startAttempt]
    split
    · rfl
    · exact executed_other hk

/-- Attempts at a row leave it as it was, or stamped, which it is if one lands. -/
theorem attempts_row {row : Attrs} (h : t.lookup (jobKey jobId) = some row) (attempts : List (Fate × Stamp)) :
    ∃ row', (attempts.foldl (startAttempt jobId) t).lookup (jobKey jobId) = some row' ∧
      ((∀ a ∈ attempts, a.1 = .refused) ∧ row' = row ∨ ∃ text, row' = setAttrs (startedAttrs text) row) := by
  induction attempts generalizing t row with
  | nil => exact ⟨row, h, .inl ⟨fun a ha => absurd ha List.not_mem_nil, rfl⟩⟩
  | cons a attempts ih =>
    rw [List.foldl_cons, startAttempt]
    by_cases ha : a.1 = .refused
    · rw [if_pos ha]
      obtain ⟨row', hrow', hall | hstamped⟩ := ih h
      · exact ⟨row', hrow', .inl ⟨List.forall_mem_cons.mpr ⟨ha, hall.1⟩, hall.2⟩⟩
      · exact ⟨row', hrow', .inr hstamped⟩
    · rw [if_neg ha]
      have hex : (executed jobId a.2 t).lookup (jobKey jobId) = some (setAttrs (startedAttrs a.2.text) row) :=
        executed_row h
      obtain ⟨row', hrow', hall | ⟨text, htext⟩⟩ := ih hex
      · exact ⟨row', hrow', .inr ⟨a.2.text, hall.2⟩⟩
      · exact ⟨row', hrow', .inr ⟨text, by rw [htext, setAttrs_startedAttrs]⟩⟩

theorem RowOf.congr {job : Submitted} {row : Attrs} (h : RowOf s job row) (hw : s'.Waits job ↔ s.Waits job) :
    RowOf s' job row := by
  unfold RowOf at h ⊢
  simpa only [hw] using h

theorem QueueInv.submit {job : Submitted} (hI : QueueInv s) (hs : s.step (.submit job true) = some s') : QueueInv s' := by
  simp only [QueueState.step] at hs
  split at hs
  · cases hs
  rename_i hfresh
  have hnew : job.jobId ∉ s.accepted := mt (hI.accepted _).mp hfresh
  have hidle : job.jobId ∉ s.begun := mt (hI.begun _) hnew
  cases hrow : serializeDict (jobItem job.job) with
  | none =>
    rw [putJob_refused hrow] at hs
    cases hs
  | some row =>
    obtain rfl := job.serialize_row hrow
    rw [putJob_exec hrow] at hs
    cases hs
    have hne : ∀ j ∈ s.submitted, j.jobId ≠ job.jobId := fun j hj e => hfresh (e ▸ List.mem_map_of_mem hj)
    have hkept : ∀ id ∈ s.begun, id ∈ job.jobId :: s.accepted := fun id hid => List.mem_cons_of_mem _ (hI.begun id hid)
    have hnodup : ((job :: s.submitted).map Submitted.jobId).Nodup := List.nodup_cons.mpr ⟨hfresh, hI.nodup⟩
    refine ⟨hnodup, hkept, ?_, ?_, ?_⟩
    · intro id
      simp only [if_true, List.mem_cons, List.map_cons, hI.accepted]
    · intro j hj
      rcases List.mem_cons.mp hj with rfl | hj
      · refine ⟨j.row, AList.lookup_insert _, ?_⟩
        rw [RowOf, if_pos]
        exact ⟨List.mem_cons_self, hidle⟩
      · obtain ⟨row, hl, ho⟩ := hI.row j hj
        refine ⟨row, (AList.lookup_insert_ne (mt jobKey_inj.mp (hne j hj))).trans hl, ho.congr ?_⟩
        simp [QueueState.Waits, hne j hj]
    · intro key row hl hi
      by_cases hk : key = jobKey job.jobId
      · exact ⟨job, List.mem_cons_self, hk⟩
      · obtain ⟨j, hj, e⟩ := hI.index key row ((AList.lookup_insert_ne hk).symm.trans hl) hi
        exact ⟨j, List.mem_cons_of_mem _ hj, e⟩

theorem QueueInv.start {attempts : List (Fate × Stamp)} (hI : QueueInv s) (hland : ∃ a ∈ attempts, a.1 ≠ .refused)
    (hs : s.step (.start jobId attempts) = some s') : QueueInv s' := by
  simp only [QueueState.step] at hs
  split at hs
  · rename_i hen
    obtain ⟨hacc, hidle, -⟩ := hen
    cases hs
    refine ⟨hI.nodup, List.forall_mem_cons.mpr ⟨hacc, hI.begun⟩, hI.accepted, fun j hj => ?_, fun key row hl hi => ?_⟩
    · obtain ⟨row, hl, ho⟩ := hI.row j hj
      by_cases hid : j.jobId = jobId
      · subst hid
        obtain ⟨row', hl', hrow'⟩ := attempts_row hl attempts
        have hwas : s.Waits j := ⟨hacc, hidle⟩
        rw [RowOf, if_pos hwas] at ho
        obtain ⟨hall, -⟩ | ⟨text, rfl⟩ := hrow'
        · obtain ⟨a, ha, hne⟩ := hland
          exact absurd (hall a ha) hne
        · refine ⟨_, hl', ?_⟩
          rw [RowOf, if_neg fun hw => hw.2 List.mem_cons_self]
          exact ⟨text, by rw [ho]⟩
      · refine ⟨row, (attempt_other (mt jobKey_inj.mp hid) attempts).trans hl, ho.congr ?_⟩
        simp [QueueState.Waits, hid]
    · by_cases hk : key = jobKey jobId
      · obtain ⟨j, hj, e⟩ := List.mem_map.mp ((hI.accepted jobId).mp hacc)
        exact ⟨j, hj, by rw [hk, e]⟩
      · exact hI.index key row ((attempt_other hk attempts).symm.trans hl) hi
  · cases hs

theorem QueueInv.other {key : Key} {hk : ∀ jobId, key ≠ jobKey jobId} {row : Option { row : Attrs // indexKey row = none }}
    (hI : QueueInv s) (hs : s.step (.other key hk row) = some s') : QueueInv s' := by
  cases row with
  | none =>
    cases hs
    refine ⟨hI.nodup, hI.begun, hI.accepted, fun j hj => ?_, fun k row hl hi => ?_⟩
    · obtain ⟨row, hl, ho⟩ := hI.row j hj
      exact ⟨row, (AList.lookup_erase_ne (hk j.jobId).symm).trans hl, ho⟩
    · by_cases e : k = key
      · subst e
        rw [AList.lookup_erase] at hl
        cases hl
      · exact hI.index k row ((AList.lookup_erase_ne e).symm.trans hl) hi
  | some row =>
    cases hs
    refine ⟨hI.nodup, hI.begun, hI.accepted, fun j hj => ?_, fun k r hl hi => ?_⟩
    · obtain ⟨row, hl, ho⟩ := hI.row j hj
      exact ⟨row, (AList.lookup_insert_ne (hk j.jobId).symm).trans hl, ho⟩
    · by_cases e : k = key
      · subst e
        rw [AList.lookup_insert] at hl
        cases hl
        rw [row.2] at hi
        cases hi
      · exact hI.index k r ((AList.lookup_insert_ne e).symm.trans hl) hi

theorem QueueInv.step {a : QueueAction} (hI : QueueInv s) (hl : Lands history s a) (hs : s.step a = some s') :
    QueueInv s' := by
  cases a with
  | submit job accepted =>
    obtain rfl : accepted = true := hl
    exact hI.submit hs
  | start jobId attempts => exact hI.start hl hs
  | other key hk row => exact hI.other hs

/-- A table in which no job has a row yet. -/
def QueueState.fresh (t : Table) : QueueState := ⟨t, [], [], []⟩

theorem QueueInv.fresh (ht : ∀ key row, t.lookup key = some row → indexKey row = none) : QueueInv (.fresh t) where
  nodup := List.nodup_nil
  begun _ h := h
  accepted _ := Iff.rfl
  row _ h := absurd h List.not_mem_nil
  index key row hl hi := by
    rw [ht key row hl] at hi
    cases hi

/-! ## Counting -/

section

variable {α : Type} {ks ws : List α}

/-- Of lists without repetition one of which is part of the other. -/
theorem length_eq_iff_subset (hk : ks.Nodup) (hw : ws.Nodup) (hsub : ks ⊆ ws) : ks.length = ws.length ↔ ws ⊆ ks := by
  constructor
  · intro h
    exact ((List.subperm_of_subset hk hsub).perm_of_length_le h.ge).symm.subset
  · intro h
    exact le_antisymm (List.subperm_of_subset hk hsub).length_le (List.subperm_of_subset hw h).length_le

end

theorem tenantQueued_exec [Pydantic] (tenantId : String) (t : Table) :
    (exec onPages (tenantQueued tenantId) t).1 =
      (((queried tenantId 500 t).map Sigma.snd).mapM jobFromItem).map fun jobs => jobs.countP fun job => job.status = .queued := by
  rw [tenantQueued, exec_bind, listJobsForTenant_pages]
  cases ((queried tenantId 500 t).map Sigma.snd).mapM jobFromItem <;> rfl

/-- What is read of a row the query returns, in any state of such a run. -/
theorem QueueInv.reads [Pydantic] (hI : QueueInv s) {tenantId : String} {r : Row} (hr : r ∈ queried tenantId 500 s.table) :
    ∃ job ∈ s.submitted, r.1 = jobKey job.jobId ∧ job.tenantId = tenantId ∧
      ∃ found, jobFromItem r.2 = .ok found ∧ (found.status = .queued ↔ s.Waits job) := by
  obtain ⟨hl, sk, hi⟩ := mem_queried hr
  obtain ⟨job, hj, hk⟩ := hI.index r.1 r.2 hl (by rw [hi]; rfl)
  obtain ⟨row, hrow, ho⟩ := hI.row job hj
  rw [← hk, hl] at hrow
  obtain rfl := Option.some.inj hrow
  obtain ⟨hqueued, hrunning⟩ := job.reads
  refine ⟨job, hj, hk, ?_⟩
  by_cases hw : s.Waits job
  · rw [RowOf, if_pos hw] at ho
    rw [ho, Submitted.indexKey_row] at hi
    rw [ho]
    exact ⟨(Prod.mk.inj (Option.some.inj hi)).1, _, hqueued, iff_of_true rfl hw⟩
  · rw [RowOf, if_neg hw] at ho
    obtain ⟨text, ho⟩ := ho
    rw [ho, indexKey_started, Submitted.indexKey_row] at hi
    rw [ho]
    exact ⟨(Prod.mk.inj (Option.some.inj hi)).1, _, hrunning text, iff_of_false (by simp) hw⟩

/-- What reads of a list each meet `q` where `p` says so are as many. -/
theorem countP_of_mapM {α β : Type} {f : β → Except Raised α} {p : β → Bool} {q : α → Bool} {xs : List β}
    (h : ∀ x ∈ xs, ∃ y, f x = .ok y ∧ q y = p x) : ∃ ys, xs.mapM f = .ok ys ∧ ys.countP q = xs.countP p := by
  obtain ⟨ys, hys⟩ := mapM_exists fun x hx => (h x hx).imp fun y hy => hy.1
  refine ⟨ys, hys, ?_⟩
  have hmap : ys.map q = xs.map p := map_of_mapM hys fun x hx y hy => by
    obtain ⟨y', hy', e⟩ := h x hx
    cases hy.symm.trans hy'
    exact e
  calc ys.countP q = (ys.map q).countP id := by rw [List.countP_map]; rfl
    _ = (xs.map p).countP id := by rw [hmap]
    _ = xs.countP p := by rw [List.countP_map]; rfl

/-- The jobs that wait, by their rows. -/
def QueueState.waitingKeys (s : QueueState) (tenantId : String) : List Key :=
  (s.waiting tenantId).map fun job => jobKey job.jobId

theorem QueueState.mem_waitingKeys {tenantId : String} {key : Key} :
    key ∈ s.waitingKeys tenantId ↔
      ∃ job ∈ s.submitted, job.tenantId = tenantId ∧ s.Waits job ∧ jobKey job.jobId = key := by
  simp only [QueueState.waitingKeys, QueueState.waiting, List.mem_map, List.mem_filter, decide_eq_true_iff, and_assoc]

theorem QueueInv.nodup_waitingKeys (hI : QueueInv s) (tenantId : String) : (s.waitingKeys tenantId).Nodup := by
  have hids : ((s.waiting tenantId).map Submitted.jobId).Nodup := hI.nodup.sublist (List.filter_sublist.map _)
  have hkeys := hids.map (f := jobKey) fun a b h => jobKey_inj.mp h
  rwa [List.map_map] at hkeys

/-- The count is of the rows the query returns whose jobs wait. -/
theorem QueueInv.counts [Pydantic] (hI : QueueInv s) (tenantId : String) :
    (exec onPages (tenantQueued tenantId) s.table).1 =
      .ok ((queried tenantId 500 s.table).countP fun r => r.1 ∈ s.waitingKeys tenantId) := by
  have hreads : ∀ r ∈ queried tenantId 500 s.table, ∃ found, jobFromItem r.2 = .ok found ∧
      decide (found.status = .queued) = decide (r.1 ∈ s.waitingKeys tenantId) := by
    intro r hr
    obtain ⟨job, hj, hk, htenant, found, hfound, hstatus⟩ := hI.reads hr
    refine ⟨found, hfound, decide_eq_decide.mpr (hstatus.trans ?_)⟩
    rw [QueueState.mem_waitingKeys]
    constructor
    · intro hw
      exact ⟨job, hj, htenant, hw, hk.symm⟩
    · rintro ⟨job', -, -, hw, e⟩
      have hid : job'.jobId = job.jobId := jobKey_inj.mp (e.trans hk)
      rwa [QueueState.Waits, hid] at hw
  obtain ⟨jobs, hjobs, hcount⟩ := countP_of_mapM hreads
  rw [tenantQueued_exec, List.mapM_map, show jobFromItem ∘ Sigma.snd = fun r : Row => jobFromItem r.2 from rfl, hjobs]
  exact congrArg Except.ok hcount

/-- In every run that leaves no submission half done, and in which of each
beginning an attempt lands, the count is exact just where the query returns
the row of every job that waits. -/
theorem tenantQueued_exact_iff [Pydantic] (t : Table) (ht : ∀ key row, t.lookup key = some row → indexKey row = none)
    (history : List QueueAction) (s : QueueState) (lands : Along QueueState.step Lands (.fresh t) history)
    (hr : Machine.run QueueState.step (.fresh t) history = some s) (tenantId : String) :
    (exec onPages (tenantQueued tenantId) s.table).1 = .ok (s.waiting tenantId).length ↔
      ∀ job ∈ s.waiting tenantId, jobKey job.jobId ∈ (queried tenantId 500 s.table).map Sigma.fst := by
  have hstep : ∀ history s a s', QueueInv s → Lands history s a → QueueState.step s a = some s' → QueueInv s' :=
    fun history s a s' hI hl hs => hI.step hl hs
  have hI : QueueInv s := Machine.run_keeps_along (I := fun _ s => QueueInv s) (.fresh ht) hstep lands hr
  have hfound : ((queried tenantId 500 s.table).filter fun r => r.1 ∈ s.waitingKeys tenantId).map Sigma.fst =
      ((queried tenantId 500 s.table).map Sigma.fst).filter fun key => key ∈ s.waitingKeys tenantId := by
    rw [List.filter_map]
    rfl
  have hlen := length_eq_iff_subset ((nodup_queried tenantId 500 s.table).filter fun key => key ∈ s.waitingKeys tenantId)
    (hI.nodup_waitingKeys tenantId) fun key hk => of_decide_eq_true (List.mem_filter.mp hk).2
  rw [hI.counts, Except.ok.injEq, List.countP_eq_length_filter, ← List.length_map (f := Sigma.fst), hfound]
  have hall : s.waitingKeys tenantId ⊆ ((queried tenantId 500 s.table).map Sigma.fst).filter (fun key =>
      key ∈ s.waitingKeys tenantId) ↔ ∀ job ∈ s.waiting tenantId, jobKey job.jobId ∈ (queried tenantId 500 s.table).map Sigma.fst := by
    constructor
    · intro h job hj
      exact (List.mem_filter.mp (h (List.mem_map_of_mem hj))).1
    · intro h key hk
      obtain ⟨job, hj, rfl⟩ := List.mem_map.mp hk
      exact List.mem_filter.mpr ⟨h job hj, decide_eq_true hk⟩
  rw [← hall, ← hlen, QueueState.waitingKeys, List.length_map]

/-- The count is never more than 500. -/
theorem tenantQueued_le [Pydantic] (tenantId : String) (t : Table) {n : ℕ}
    (h : (exec onPages (tenantQueued tenantId) t).1 = .ok n) : n ≤ 500 := by
  rw [tenantQueued_exec] at h
  cases hm : ((queried tenantId 500 t).map Sigma.snd).mapM jobFromItem with
  | error e => rw [hm] at h; cases h
  | ok jobs =>
    rw [hm] at h
    cases h
    have hlen : (jobs.map fun _ => ()).length = (((queried tenantId 500 t).map Sigma.snd).map fun _ => ()).length :=
      congrArg List.length (map_of_mapM hm fun _ _ _ _ => rfl)
    calc jobs.countP (fun job => job.status = .queued) ≤ jobs.length := List.countP_le_length
      _ = (queried tenantId 500 t).length := by simpa using hlen
      _ ≤ 500 := List.length_take_le _ _

/-! ## A job that begins unstamped -/

def sessionJob : Submitted where
  jobId := "session-triage-0f3a9c21"
  tenantId := "acme"
  agentId := "triage"
  createdAt := "2026-09-02T14:02:00+00:00"
  priority := { priorityKey := 3 }
  small := by decide

/-- A job that is submitted after it. -/
def laterJob : Submitted where
  jobId := "session-triage-7d10be44"
  tenantId := "acme"
  agentId := "triage"
  createdAt := "2026-09-02T14:02:30+00:00"
  priority := { priorityKey := 3 }
  small := by decide

theorem submit_step {job : Submitted} (hs : (serializeDict (jobItem job.job)).isSome)
    (hfresh : job.jobId ∉ s.submitted.map Submitted.jobId) :
    s.step (.submit job true) = some { s with
      table := s.table.insert (jobKey job.jobId) job.row
      submitted := job :: s.submitted
      accepted := job.jobId :: s.accepted } := by
  obtain ⟨row, hrow⟩ := Option.isSome_iff_exists.mp hs
  obtain rfl := job.serialize_row hrow
  have hput : exec onTable (putJob job.job) s.table = _ := putJob_exec hrow s.table
  simp only [QueueState.step, if_neg hfresh, hput, if_true]
  rfl

theorem sessionJob_stored : (serializeDict (jobItem sessionJob.job)).isSome :=
  serializeDict_isSome_iff.mpr (by decide +kernel)

theorem laterJob_stored : (serializeDict (jobItem laterJob.job)).isSome :=
  serializeDict_isSome_iff.mpr (by decide +kernel)

/-- The state after the first is submitted. -/
def sessionQueued : QueueState :=
  ⟨(∅ : Table).insert (jobKey sessionJob.jobId) sessionJob.row, [sessionJob], [sessionJob.jobId], []⟩

/-- The later job has begun; its first mark was refused, and the second landed. -/
def laterBegun : QueueState where
  table := executed laterJob.jobId firstStamp (sessionQueued.table.insert (jobKey laterJob.jobId) laterJob.row)
  submitted := [laterJob, sessionJob]
  accepted := [laterJob.jobId, sessionJob.jobId]
  begun := [laterJob.jobId]

theorem queried_sessionQueued :
    queried "acme" 500 sessionQueued.table = [⟨jobKey sessionJob.jobId, sessionJob.row⟩] := by
  have hbytes : rowBytes ⟨jobKey sessionJob.jobId, sessionJob.row⟩ ≤ 1024 * 1024 := by decide +kernel
  have hselect : selectIndex "acme" sessionQueued.table.entries = [⟨jobKey sessionJob.jobId, sessionJob.row⟩] := rfl
  rw [queried, hselect, firstPage, fitting, if_pos hbytes]
  rfl

/-- Of two jobs one has begun, and the count is 1. -/
theorem tenantQueued_exact_iff_session :
    ∃ s, Machine.run QueueState.step (.fresh ∅) [.submit sessionJob true, .submit laterJob true,
        .start laterJob.jobId [(.refused, firstStamp), (.answered, firstStamp)]] = some s ∧
      s.waiting "acme" = [sessionJob] ∧ (exec onPages (@tenantQueued digits "acme") s.table).1 = .ok 1 := by
  have hr : Machine.run QueueState.step (.fresh ∅) [.submit sessionJob true, .submit laterJob true,
      .start laterJob.jobId [(.refused, firstStamp), (.answered, firstStamp)]] = some laterBegun := by
    rw [Machine.run_cons, submit_step sessionJob_stored (by decide), Option.bind_eq_bind, Option.bind_some,
      Machine.run_cons, submit_step laterJob_stored (by decide), Option.bind_eq_bind, Option.bind_some]
    rfl
  refine ⟨_, hr, rfl, (@tenantQueued_exact_iff digits ∅ (fun key row h => ?_) _ _ ?_ hr "acme").mpr ?_⟩
  · cases h
  · refine along_cons rfl fun _ _ => along_cons rfl fun _ _ => along_cons ?_ fun _ _ => along_nil _ _
    exact ⟨_, List.mem_cons_of_mem _ List.mem_cons_self, nofun⟩
  · decide +kernel

/-- A job whose row no attempt could stamp is counted, though it has begun. -/
theorem tenantQueued_stale :
    let attempts := List.replicate 3 (Fate.refused, firstStamp)
    ∃ s, Machine.run QueueState.step (.fresh ∅) [.submit sessionJob true, .start sessionJob.jobId attempts] = some s ∧
      (exec onPages (@tenantQueued digits "acme") s.table).1 = .ok 1 ∧ (s.waiting "acme").length = 0 := by
  intro attempts
  refine ⟨{ sessionQueued with begun := [sessionJob.jobId] }, ?_, ?_, by decide +kernel⟩
  · rw [Machine.run_cons, submit_step sessionJob_stored (by decide)]
    rfl
  · have hreads := (@Submitted.reads digits sessionJob).1
    rw [@tenantQueued_exec digits, queried_sessionQueued, List.map_singleton, List.mapM_cons, List.mapM_nil, hreads]
    rfl

end ControlPlane
