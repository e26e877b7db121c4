import ControlPlane.Registry.Fleet
import ControlPlane.Registry.Rows

/-!
# The demo reset

`_job_ids` and `main` of `scripts/reset.py`. `_job_ids` pages by calling the
same query again and leaving out the ids it has seen; the query has no cursor
and answers the tenant's newest rows each time, so the second page is the
first one over (`jobIds_exec`).

* `ResetRow`: what a row has for the script to go through it.
* `reset_finds_iff`: the ids of a tenant are found, and one run leaves no job,
  exactly where one query returns all of the tenant's rows.
* `reset_misses`: of 101 jobs at least one is not found.
-/

namespace ControlPlane

open Effect Effect.Prog

/-! ## The jobs of a tenant -/

/-- `PAGE`. -/
def resetPage : ℕ := 100

section

variable [Pydantic]

/-- The loop of `_job_ids`, with so many queries at most: none if they do not do. -/
def jobIdsFrom (tenantId : String) : ℕ → List String → Repo (Option (List String))
  | 0, _ => return none
  | n + 1, seen => do
    let page ← listJobsForTenant tenantId resetPage
    let fresh := (page.map Job.jobId).filter (· ∉ seen)
    if fresh = [] then return some seen
    else if page.length < resetPage then return some (seen ++ fresh)
    else jobIdsFrom tenantId n (seen ++ fresh)

/-- `_job_ids`. -/
def jobIds (tenantId : String) (fuel : ℕ) : Repo (Option (List String)) := jobIdsFrom tenantId fuel []

/-- The ids of some tenants' jobs: `job_plan`, one tenant after another. -/
def jobPlan (fuel : ℕ) : List String → Repo (Option (List String))
  | [] => return some []
  | tenantId :: rest => do
    match ← jobIds tenantId fuel, ← jobPlan fuel rest with
    | some ids, some plan => return some (ids ++ plan)
    | _, _ => return none

/-- The tenants a run covers: the one that `--tenant` names, or all there are. -/
def coveredTenants (tenant : Option String) : Repo (List String) :=
  match tenant.filter (· ≠ "") with
  | some tenantId => return [tenantId]
  | none => do return (← listTenants).map Tenant.tenantId

end

/-- A job's row and its result's. -/
def deleteJobs (ids : List String) : Repo Unit :=
  ids.forM fun jobId => do
    deleteJob jobId
    deleteJobResult jobId

/-! ## The script -/

/-- What else it calls: AgentCore Memory, Mockoon and the deployment's ramp. -/
inductive DemoOp
  /-- `_memory_events`: the ids of a tenant's events. -/
  | memoryEvents (tenantId : String)
  | deleteEvent (tenantId eventId : String)
  /-- `_mockoon_bucket_size`: none where it cannot be reached. -/
  | bucketSize (bucket : String)
  /-- `_clear_mockoon_bucket`, a failure of which is only printed. -/
  | clearBucket (bucket : String)
  | clearRamp

def DemoOp.Ans : DemoOp → Type
  | memoryEvents _ => List String
  | deleteEvent _ _ => Unit
  | bucketSize _ => Option ℕ
  | clearBucket _ => Unit
  | clearRamp => Unit

def Demo : Sig := ⟨DemoOp, DemoOp.Ans⟩

def mockoonBuckets : List String := ["payments", "dispute-responses"]

def memoryEvents (tenantId : String) : Prog Demo Raised (List String) := op (S := Demo) (.memoryEvents tenantId)

def bucketSize (bucket : String) : Prog Demo Raised (Option ℕ) := op (S := Demo) (.bucketSize bucket)

/-- `_purge_memory`. -/
def purgeMemory (tenantId : String) : Prog Demo Raised Unit := do
  let events ← memoryEvents tenantId
  events.forM fun eventId => op (S := Demo) (.deleteEvent tenantId eventId)

/-- Empties a bucket that could be reached before. -/
def clearReached : String × Option ℕ → Prog Demo Raised Unit
  | (bucket, some _) => op (S := Demo) (.clearBucket bucket)
  | (_, none) => return ()

def clearBuckets (sizes : List (Option ℕ)) : Prog Demo Raised Unit := (mockoonBuckets.zip sizes).forM clearReached

section

variable [Pydantic]

/-- The exit code: whether what is left was seen to be none. -/
def resetExit (tenants : List String) (fuel : ℕ) : Prog (Dynamo.sum Demo) Raised (Option ℕ) := do
  let jobs ← (jobPlan fuel tenants).inl
  let events ← (tenants.mapM memoryEvents).inr
  let sizes ← (mockoonBuckets.mapM bucketSize).inr
  match jobs with
  | none => return none
  | some jobs =>
    if jobs.length = 0 ∧ events.flatten.length = 0 then
      if (← getFairnessSetting.inl).enabled then
        if (← getKillSwitch.inl).armed then return some 1
        else return some (if sizes.all (· = some 0) then 0 else 1)
      else return some 1
    else return some 1

/-- `main`, given its options. -/
def reset (tenant : Option String) (yes : Bool) (fuel : ℕ) : Prog (Dynamo.sum Demo) Raised (Option ℕ) := do
  let tenants ← (coveredTenants tenant).inl
  let plan ← (jobPlan fuel tenants).inl
  let _ ← (tenants.mapM memoryEvents).inr
  let _ ← getFairnessSetting.inl
  let _ ← getKillSwitch.inl
  let sizes ← (mockoonBuckets.mapM bucketSize).inr
  match plan with
  | none => return none
  | some plan =>
    if yes then
      (deleteJobs plan).inl
      (tenants.forM purgeMemory).inr
      (putFairnessSetting { enabled := true }).inl
      (putKillSwitch { armed := false }).inl
      (op (S := Demo) .clearRamp).inr
      (clearBuckets sizes).inr
      resetExit tenants fuel
    else return some 0

end

/-! ## What rows have for it -/

/-- A job's row has its key's id, and its tenant is that of the index; what is
put as a setting reads back. -/
structure ResetRow (e : Entity) (row : Attrs) : Prop where
  jobId : ∀ id v, e = .job id → row.lookup "job_id" = some v → v = .str id
  tenant : ∀ id, e = .job id → row.lookup "tenant_id" = (indexKey row).map fun k => .str k.1
  fairness : e = .fairness → ∃ setting, ofItem FairnessSetting.ofKwargs row = .ok setting
  killSwitch : e = .killSwitch → ∃ setting, ofItem KillSwitch.ofKwargs row = .ok setting

theorem resetRow_nil (e : Entity) : ResetRow e [] where
  jobId _ _ _ h := by cases h
  tenant _ _ := rfl
  fairness _ := ⟨{}, rfl⟩
  killSwitch _ := ⟨{}, rfl⟩

theorem resetRow_stored {e : Entity} {attrs row : Attrs} (hst : Stored e attrs) (hs : serializeDict attrs = some row) :
    ResetRow e row := by
  have hl := serializeDict_lookup hs
  refine ⟨fun id v he hv => ?_, fun id he => ?_, fun he => ?_, fun he => ?_⟩
  · subst he
    cases hst
    rw [hl] at hv
    cases hv
    rfl
  · subst he
    cases hst
    simp only [indexKey, hl]
    rfl
  · subst he
    cases hst
    cases hs
    exact ⟨_, rfl⟩
  · subst he
    cases hst
    cases hs
    exact ⟨_, rfl⟩

theorem resetRow_invariant : RowInvariant ResetRow where
  put := resetRow_stored
  set := by
    intro e set new old hu hs ho
    cases hu with
    | started jobId startedAt =>
      -- the update sets none of the attributes `ResetRow` is about
      have hl : ∀ name, name ∉ ["started_at", "status"] → (setAttrs new old).lookup name = old.lookup name := by
        intro name hn
        simp only [List.mem_cons, List.not_mem_nil, or_false, not_or] at hn
        rw [setAttrs_lookup, serializeDict_lookup hs]
        simp [List.lookup_cons, beq_eq_false_iff_ne.mpr hn.1, beq_eq_false_iff_ne.mpr hn.2]
      refine ⟨fun id v he hv => ?_, fun id he => ?_, fun he => Entity.noConfusion he, fun he => Entity.noConfusion he⟩
      · rw [hl "job_id" (by decide)] at hv
        exact ho.jobId id v he hv
      · have hi : indexKey (setAttrs new old) = indexKey old := by
          rw [indexKey, hl "gsi1_pk" (by decide), hl "gsi1_sk" (by decide)]
          rfl
        rw [hl "tenant_id" (by decide), hi]
        exact ho.tenant id he
    | completed key result =>
      exact ⟨fun _ _ he => Entity.noConfusion he, fun _ he => Entity.noConfusion he, fun he => Entity.noConfusion he,
        fun he => Entity.noConfusion he⟩

/-- What a job has of its row's id. -/
theorem job_ofItem [Pydantic] {row : Attrs} {job : Job} (h : jobFromItem row = .ok job) :
    row.lookup "job_id" >>= fromDecimal = some (.str job.jobId) := by
  obtain ⟨kw, hf, hk⟩ := ofItem_ok h
  have hb := construct_ok hk
  obtain ⟨jobId, hid, hb⟩ := Option.bind_eq_some_iff.mp hb
  iterate 8 obtain ⟨_, -, hb⟩ := Option.bind_eq_some_iff.mp hb
  cases hb
  obtain ⟨v, hv, hs⟩ := Option.bind_eq_some_iff.mp hid
  rw [← lookup_filter_key (fun name => name ∉ ["gsi1_pk", "gsi1_sk"]) (by decide), ← fromDecimalDict_lookup hf, hv, asStr_eq hs]

/-- The row is a job's, and of the tenant. -/
def JobOf (t : Table) (tenantId jobId : String) : Prop :=
  ∃ row, t.lookup (jobKey jobId) = some row ∧ row.lookup "tenant_id" = some (.str tenantId)

variable {t : Table} {tenantId : String}

/-- The rows in the index under a tenant are those of its jobs. -/
theorem jobOf_iff (h : Rows ResetRow t) {jobId : String} :
    JobOf t tenantId jobId ↔ ∃ row sk, t.lookup (jobKey jobId) = some row ∧ indexKey row = some (tenantId, sk) := by
  refine exists_congr fun row => ?_
  constructor
  · rintro ⟨hl, ht⟩
    rw [(h.lookup (e := .job jobId) hl).tenant jobId rfl] at ht
    obtain ⟨k, hk, e⟩ := Option.map_eq_some_iff.mp ht
    cases e
    exact ⟨k.2, hl, hk⟩
  · rintro ⟨sk, hl, hi⟩
    refine ⟨hl, ?_⟩
    rw [(h.lookup (e := .job jobId) hl).tenant jobId rfl, hi]
    rfl

/-! ## Finding them -/

/-- A query's row is at the key of the job that is read of it. -/
theorem queried_job [Pydantic] (hown : Rows Own t) (h : Rows ResetRow t) {limit : ℕ} {r : Row}
    (hr : r ∈ queried tenantId limit t) : ∃ jobId, r.1 = jobKey jobId ∧ JobOf t tenantId jobId ∧
      ∀ job, jobFromItem r.2 = .ok job → job.jobId = jobId := by
  obtain ⟨hl, sk, hi⟩ := mem_queried hr
  obtain ⟨e, he, ho⟩ := hown r.1 r.2 hl
  obtain ⟨jobId, rfl⟩ := ho.index fun hn => by simp [indexKey, hn] at hi
  rw [← he] at hl
  refine ⟨jobId, he.symm, (jobOf_iff h).mpr ⟨r.2, sk, hl, hi⟩, fun job hjob => ?_⟩
  obtain ⟨v, hv, hf⟩ := Option.bind_eq_some_iff.mp (job_ofItem hjob)
  rw [(h.lookup hl).jobId jobId v rfl hv] at hf
  cases hf
  rfl

section

variable [Pydantic]

/-- The second query answers what the first did, and so is the last. -/
theorem jobIds_exec {jobs : List Job} (hjobs : ((queried tenantId resetPage t).map Sigma.snd).mapM jobFromItem = .ok jobs)
    {fuel : ℕ} (hfuel : 2 ≤ fuel) : exec onPages (jobIds tenantId fuel) t = (.ok (some (jobs.map Job.jobId)), t) := by
  have hpage : exec onPages (listJobsForTenant tenantId resetPage) t = (.ok jobs, t) := by
    rw [listJobsForTenant_pages, hjobs]
  obtain ⟨n, rfl⟩ := Nat.exists_eq_add_of_le' hfuel
  have hseen : (jobs.map Job.jobId).filter (· ∉ jobs.map Job.jobId) = [] :=
    List.filter_eq_nil_iff.mpr fun id hid hn => of_decide_eq_true hn hid
  have hall : (jobs.map Job.jobId).filter (· ∉ ([] : List String)) = jobs.map Job.jobId :=
    List.filter_eq_self.mpr fun id _ => decide_eq_true List.not_mem_nil
  have hsecond : exec onPages (jobIdsFrom tenantId (n + 1) (jobs.map Job.jobId)) t =
      (.ok (some (jobs.map Job.jobId)), t) := by
    rw [jobIdsFrom, exec_bind, hpage]
    simp only [hseen, if_true]
    rfl
  rw [jobIds, jobIdsFrom, exec_bind, hpage]
  simp only [hall, List.nil_append]
  split
  · rename_i hnil
    rw [hnil]
    rfl
  · split
    · rfl
    · exact hsecond

theorem jobIds_raises {e : Raised} (hjobs : ((queried tenantId resetPage t).map Sigma.snd).mapM jobFromItem = .error e)
    (fuel : ℕ) : exec onPages (jobIds tenantId (fuel + 1)) t = (.error e, t) := by
  rw [jobIds, jobIdsFrom, exec_bind, listJobsForTenant_pages, hjobs]

/-- `_job_ids` returns, given queries enough, each of the tenant's jobs once and no other. -/
def FindsEach (t : Table) (tenantId : String) : Prop :=
  ∃ ids bound, (∀ fuel, bound ≤ fuel → exec onPages (jobIds tenantId fuel) t = (.ok (some ids), t)) ∧ ids.Nodup ∧
    ∀ jobId, jobId ∈ ids ↔ JobOf t tenantId jobId

/-- One query returns all of the tenant's rows, and they read back. -/
def OneQuery (t : Table) (tenantId : String) : Prop :=
  ∀ jobId row, t.lookup (jobKey jobId) = some row → row.lookup "tenant_id" = some (.str tenantId) →
    ⟨jobKey jobId, row⟩ ∈ queried tenantId resetPage t ∧ ∃ job, jobFromItem row = .ok job

/-- The ids one query finds are those of its rows. -/
theorem map_jobId (hown : Rows Own t) (h : Rows ResetRow t) {jobs : List Job}
    (hjobs : ((queried tenantId resetPage t).map Sigma.snd).mapM jobFromItem = .ok jobs) :
    (jobs.map Job.jobId).map jobKey = (queried tenantId resetPage t).map Sigma.fst := by
  rw [List.mapM_map] at hjobs
  rw [List.map_map]
  refine map_of_mapM hjobs fun r hr job hjob => ?_
  obtain ⟨jobId, hk, -, hid⟩ := queried_job hown h hr
  rw [hk, ← hid job hjob]
  rfl

theorem finds_of_oneQuery (hown : Rows Own t) (h : Rows ResetRow t) (hq : OneQuery t tenantId) :
    ∃ ids : List String, (∀ fuel, 2 ≤ fuel → exec onPages (jobIds tenantId fuel) t = (.ok (some ids), t)) ∧ ids.Nodup ∧
      ∀ jobId, jobId ∈ ids ↔ JobOf t tenantId jobId := by
  obtain ⟨jobs, hjobs⟩ : ∃ jobs, ((queried tenantId resetPage t).map Sigma.snd).mapM jobFromItem = .ok jobs := by
    refine mapM_exists fun row hrow => ?_
    obtain ⟨r, hr, rfl⟩ := List.mem_map.mp hrow
    obtain ⟨jobId, hk, ⟨row, hl, ht⟩, -⟩ := queried_job hown h hr
    have hrow : t.lookup (jobKey jobId) = some r.2 := hk ▸ (mem_queried hr).1
    cases hl.symm.trans hrow
    exact (hq jobId _ hl ht).2
  have hkeys := map_jobId hown h hjobs
  refine ⟨jobs.map Job.jobId, fun fuel hfuel => jobIds_exec hjobs hfuel, ?_, fun jobId => ?_⟩
  · have hn := nodup_queried tenantId resetPage t
    rw [← hkeys] at hn
    exact hn.of_map _
  · have hmem : jobId ∈ jobs.map Job.jobId ↔ jobKey jobId ∈ (queried tenantId resetPage t).map Sigma.fst := by
      rw [← hkeys, List.mem_map_of_injective fun a b e => jobKey_inj.mp e]
    rw [hmem, List.mem_map]
    constructor
    · rintro ⟨r, hr, hk⟩
      obtain ⟨id, hid, hof, -⟩ := queried_job hown h hr
      rwa [jobKey_inj.mp (hk.symm.trans hid)]
    · rintro ⟨row, hl, ht⟩
      exact ⟨_, (hq jobId row hl ht).1, rfl⟩

/-- A tenant's jobs are found exactly where one query returns them all. -/
theorem findsEach_iff (hown : Rows Own t) (h : Rows ResetRow t) : FindsEach t tenantId ↔ OneQuery t tenantId := by
  constructor
  · rintro ⟨ids, bound, hexec, -, hids⟩ jobId row hl ht
    cases hjobs : ((queried tenantId resetPage t).map Sigma.snd).mapM jobFromItem with
    | error e =>
      have hraise := hexec (bound + 1) (Nat.le_succ bound)
      rw [jobIds_raises hjobs] at hraise
      cases hraise
    | ok jobs =>
      have hreturn := hexec (bound + 2) (Nat.le_add_right bound 2)
      rw [jobIds_exec hjobs (Nat.le_add_left 2 bound)] at hreturn
      cases hreturn
      have hkey := List.mem_map_of_mem (f := jobKey) ((hids jobId).mpr ⟨row, hl, ht⟩)
      rw [map_jobId hown h hjobs] at hkey
      obtain ⟨r, hr, hk⟩ := List.mem_map.mp hkey
      have hrow : t.lookup (jobKey jobId) = some r.2 := hk ▸ (mem_queried hr).1
      cases hl.symm.trans hrow
      refine ⟨by rw [← hk]; exact hr, exists_of_mapM hjobs r.2 (List.mem_map_of_mem hr)⟩
  · intro hq
    obtain ⟨ids, hexec, hnodup, hids⟩ := finds_of_oneQuery hown h hq
    exact ⟨ids, 2, hexec, hnodup, hids⟩

end

/-! ## One run -/

/-- The table without these jobs. -/
def deleted (ids : List String) (t : Table) : Table :=
  ids.foldl (fun t jobId => (t.erase (jobKey jobId)).erase (jobResultKey jobId)) t

theorem deleteJobs_exec (ids : List String) (t : Table) : exec onPages (deleteJobs ids) t = (.ok (), deleted ids t) := by
  induction ids generalizing t with
  | nil => rfl
  | cons jobId ids ih =>
    have hone : exec onPages (do deleteJob jobId; deleteJobResult jobId) t =
        (.ok (), (t.erase (jobKey jobId)).erase (jobResultKey jobId)) := rfl
    refine (exec_forM_cons (x := jobId) ?_ ids).trans (ih _)
    exact hone

theorem deleted_rows {P : Entity → Attrs → Prop} (h : Rows P t) (ids : List String) : Rows P (deleted ids t) := by
  induction ids generalizing t with
  | nil => exact h
  | cons jobId ids ih => exact ih ((h.erase _).erase _)

/-- What is left of the jobs' rows. -/
theorem lookup_deleted (ids : List String) (jobId : String) :
    (deleted ids t).lookup (jobKey jobId) = if jobId ∈ ids then none else t.lookup (jobKey jobId) := by
  induction ids generalizing t with
  | nil => rfl
  | cons id ids ih =>
    have hresult : jobKey jobId ≠ jobResultKey id := key_ne (e := .job jobId) (f := .jobResult id) (by simp)
    rw [deleted, List.foldl_cons, ← deleted, ih, AList.lookup_erase_ne hresult]
    by_cases hid : jobId = id
    · subst hid
      simp
    · rw [AList.lookup_erase_ne (mt jobKey_inj.mp hid)]
      simp [hid]

/-- Reading a row that reads back, if it is there. -/
theorem exec_getSetting {α : Type} {k : Key} {ofItem : Attrs → Except Raised α} (default : α)
    (h : ∀ row, t.lookup k = some row → ∃ a, ofItem row = .ok a) :
    ∃ a, exec onPages (do return (← getRow k ofItem).getD default) t = (.ok a, t) := by
  have hk (f : Option Attrs → Repo (Option α)) :
      exec onPages (call (S := Dynamo) (.getItem k) f) t = exec onPages (f (t.lookup k)) t := rfl
  have hget : exec onPages (getRow k ofItem) t = (readRow ofItem (t.lookup k), t) := by
    rw [getRow_readRow]
    exact (hk _).trans (exec_ofExcept _ _ _)
  obtain ⟨a, ha⟩ : ∃ a, readRow ofItem (t.lookup k) = .ok a := by
    cases hl : t.lookup k with
    | none => exact ⟨none, rfl⟩
    | some row =>
      obtain ⟨a, ha⟩ := h row hl
      exact ⟨some a, by rw [readRow, ha]; rfl⟩
  refine ⟨a.getD default, (exec_bind onPages (getRow k ofItem) _ t).trans ?_⟩
  rw [hget, ha]
  rfl

theorem exec_getFairness (h : Rows ResetRow t) : ∃ setting, exec onPages getFairnessSetting t = (.ok setting, t) :=
  exec_getSetting (k := fairnessKey) ({} : FairnessSetting) fun _ hl => (h.lookup (e := .fairness) hl).fairness rfl

theorem exec_getKillSwitch (h : Rows ResetRow t) : ∃ setting, exec onPages getKillSwitch t = (.ok setting, t) :=
  exec_getSetting (k := killSwitchKey) ({} : KillSwitch) fun _ hl => (h.lookup (e := .killSwitch) hl).killSwitch rfl

/-- The table with its settings restored. -/
def restored (t : Table) : Table :=
  (t.insert fairnessKey [("enabled", .bool true)]).insert killSwitchKey [("armed", .bool false)]

theorem restored_rows {P : Entity → Attrs → Prop} (hP : RowInvariant P) (h : Rows P t) : Rows P (restored t) :=
  (h.insert (e := .fairness) (hP.put (.fairness { enabled := true }) rfl)).insert (e := .killSwitch)
    (hP.put (.killSwitch { armed := false }) rfl)

theorem lookup_restored (jobId : String) : (restored t).lookup (jobKey jobId) = t.lookup (jobKey jobId) := by
  have hfairness : jobKey jobId ≠ fairnessKey := key_ne (e := .job jobId) (f := .fairness) (by simp)
  have hswitch : jobKey jobId ≠ killSwitchKey := key_ne (e := .job jobId) (f := .killSwitch) (by simp)
  rw [restored, AList.lookup_insert_ne hswitch, AList.lookup_insert_ne hfairness]

/-- Where the tenants' jobs are deleted, none is left of them. -/
theorem deleted_none {tenants plan : List String}
    (hmem : ∀ jobId, jobId ∈ plan ↔ ∃ tenantId ∈ tenants, JobOf t tenantId jobId) :
    ∀ tenantId ∈ tenants, ∀ jobId, ¬ JobOf (restored (deleted plan t)) tenantId jobId := by
  rintro tenantId ht jobId ⟨row, hl, hrow⟩
  rw [lookup_restored, lookup_deleted] at hl
  split at hl
  · cases hl
  · rename_i hn
    exact hn ((hmem jobId).mpr ⟨tenantId, ht, row, hl, hrow⟩)

section

variable [Pydantic] {tenants : List String} {fuel : ℕ}

theorem jobPlan_exec (hown : Rows Own t) (h : Rows ResetRow t) (hfuel : 2 ≤ fuel)
    (hq : ∀ tenantId ∈ tenants, OneQuery t tenantId) :
    ∃ plan : List String, exec onPages (jobPlan fuel tenants) t = (.ok (some plan), t) ∧
      ∀ jobId, jobId ∈ plan ↔ ∃ tenantId ∈ tenants, JobOf t tenantId jobId := by
  induction tenants with
  | nil => exact ⟨[], rfl, fun jobId => by simp⟩
  | cons tenantId rest ih =>
    rw [List.forall_mem_cons] at hq
    obtain ⟨ids, hexec, -, hids⟩ := finds_of_oneQuery hown h hq.1
    obtain ⟨plan, hplan, hmem⟩ := ih hq.2
    refine ⟨ids ++ plan, ?_, fun jobId => ?_⟩
    · rw [jobPlan, exec_bind, hexec fuel hfuel]
      dsimp only
      rw [exec_bind, hplan]
      rfl
    · simp only [List.mem_append, hids, hmem, List.mem_cons, exists_eq_or_imp]

theorem coveredTenants_reads (tenant : Option String) (t : Table) : (exec onPages (coveredTenants tenant) t).2 = t := by
  unfold coveredTenants
  split
  · rfl
  · rw [exec_bind, listTenants_pages]
    cases ((selectPrefix "TENANT#" (firstPage t.entries)).map Sigma.snd).mapM (ofItem Tenant.ofKwargs) <;> rfl

end

section

variable {E : Type} {services : Handler Demo Raised Unit E} {e : E}

/-- The script's calls: the table's, and those of the other services. -/
def resetCalls (services : Handler Demo Raised Unit E) : Handler (Dynamo.sum Demo) Raised Unit (Table × E) :=
  onPages.fst.sum services.snd

/-- A part on the table. -/
theorem returns_table {α : Type} {p : Repo α} {a : α} {t' : Table} {Q : α → Table × E → Prop}
    (h : exec onPages p t = (.ok a, t')) (hQ : Q a (t', e)) : Returns (resetCalls services) Q p.inl (t, e) :=
  ⟨a, (t', e), by rw [resetCalls, exec_inl, h], hQ⟩

/-- A part on the other services, whatever they answer. -/
theorem returns_services {α : Type} {p : Prog Demo Raised α} {Q : α → Table × E → Prop}
    (h : Returns services (fun _ _ => True) p e) (hQ : ∀ a e', Q a (t, e')) :
    Returns (resetCalls services) Q p.inr (t, e) := by
  obtain ⟨a, e', hexec, -⟩ := h
  exact ⟨a, (t, e'), by rw [resetCalls, exec_inr, hexec], hQ a e'⟩

/-- A call that is answered. -/
theorem returns_op (answers : ∀ o e, ∃ r, services o () e = .ok r) (o : DemoOp) :
    Returns services (fun _ _ => True) (op (S := Demo) o) e := by
  obtain ⟨r, hr⟩ := answers o e
  exact ⟨r.1, r.2, exec_answered (S := Demo) (k := done) hr, trivial⟩

variable (answers : ∀ o e, ∃ r, services o () e = .ok r)

include answers

theorem memoryEvents_returns (tenants : List String) (e : E) :
    Returns services (fun _ _ => True) (tenants.mapM memoryEvents) e :=
  Returns.mapM (I := fun _ => True) (fun tenantId _ _ _ => returns_op answers (.memoryEvents tenantId)) trivial

theorem bucketSize_returns (e : E) : Returns services (fun _ _ => True) (mockoonBuckets.mapM bucketSize) e :=
  Returns.mapM (I := fun _ => True) (fun bucket _ _ _ => returns_op answers (.bucketSize bucket)) trivial

theorem purgeMemory_returns (tenants : List String) (e : E) :
    Returns services (fun _ _ => True) (tenants.forM purgeMemory) e := by
  refine Returns.forM (I := fun _ => True) (fun tenantId _ _ _ => ?_) trivial
  refine Returns.bind ((returns_op answers (.memoryEvents tenantId)).mono fun events _ _ => ?_)
  exact Returns.forM (I := fun _ => True) (fun eventId _ _ _ => returns_op answers (.deleteEvent tenantId eventId)) trivial

theorem clearBuckets_returns (sizes : List (Option ℕ)) (e : E) :
    Returns services (fun _ _ => True) (clearBuckets sizes) e := by
  refine Returns.forM (I := fun _ => True) (fun bucket _ e _ => ?_) trivial
  obtain ⟨bucket, size⟩ := bucket
  cases size with
  | none => exact ⟨(), e, rfl, trivial⟩
  | some size => exact returns_op answers (.clearBucket bucket)

variable [Pydantic] {tenants : List String} {fuel : ℕ}

/-- The exit code, where no job of the tenants is left. -/
theorem resetExit_returns (hown : Rows Own t) (h : Rows ResetRow t) (hfuel : 2 ≤ fuel)
    (hq : ∀ tenantId ∈ tenants, OneQuery t tenantId) (e : E) :
    Returns (resetCalls services) (fun code w => code.isSome ∧ w.1 = t) (resetExit tenants fuel) (t, e) := by
  obtain ⟨plan, hplan, -⟩ := jobPlan_exec hown h hfuel hq
  obtain ⟨fairness, hfairness⟩ := exec_getFairness h
  obtain ⟨killSwitch, hswitch⟩ := exec_getKillSwitch h
  have hcode (n : ℕ) (e : E) :
      Returns (resetCalls services) (fun code w => code.isSome ∧ w.1 = t) (return some n) (t, e) :=
    ⟨some n, (t, e), rfl, rfl, rfl⟩
  refine Returns.bind (returns_table hplan ?_)
  refine Returns.bind (returns_services (memoryEvents_returns answers tenants e) fun events e₁ => ?_)
  refine Returns.bind (returns_services (bucketSize_returns answers e₁) fun sizes e₂ => ?_)
  dsimp only
  split
  · refine Returns.bind (returns_table hfairness ?_)
    split
    · refine Returns.bind (returns_table hswitch ?_)
      split <;> exact hcode _ _
    · exact hcode _ _
  · exact hcode _ _

/-- A run that covers tenants all of whose rows one query returns. -/
theorem reset_returns (hown : Rows Own t) (h : Rows ResetRow t) (hfuel : 2 ≤ fuel) {tenant : Option String}
    (covers : (exec onPages (coveredTenants tenant) t).1 = .ok tenants)
    (hq : ∀ tenantId ∈ tenants, OneQuery t tenantId) (e : E) :
    Returns (resetCalls services)
      (fun code w => code.isSome ∧ ∀ tenantId ∈ tenants, ∀ jobId, ¬ JobOf w.1 tenantId jobId)
      (reset tenant true fuel) (t, e) := by
  obtain ⟨plan, hplan, hmem⟩ := jobPlan_exec hown h hfuel hq
  obtain ⟨fairness, hfairness⟩ := exec_getFairness h
  obtain ⟨killSwitch, hswitch⟩ := exec_getKillSwitch h
  have hcover : exec onPages (coveredTenants tenant) t = (.ok tenants, t) := Prod.ext covers (coveredTenants_reads tenant t)
  have henabled : exec onPages (putFairnessSetting { enabled := true }) (deleted plan t) =
    (.ok (), (deleted plan t).insert fairnessKey [("enabled", .bool true)]) := rfl
  have hdisarmed : exec onPages (putKillSwitch { armed := false }) ((deleted plan t).insert fairnessKey _) =
    (.ok (), restored (deleted plan t)) := rfl
  have hnone := deleted_none hmem
  refine Returns.bind (returns_table hcover ?_)
  refine Returns.bind (returns_table hplan ?_)
  refine Returns.bind (returns_services (memoryEvents_returns answers tenants e) fun _ e₁ => ?_)
  refine Returns.bind (returns_table hfairness ?_)
  refine Returns.bind (returns_table hswitch ?_)
  refine Returns.bind (returns_services (bucketSize_returns answers e₁) fun sizes e₂ => ?_)
  refine Returns.bind (returns_table (deleteJobs_exec plan t) ?_)
  refine Returns.bind (returns_services (purgeMemory_returns answers tenants e₂) fun _ e₃ => ?_)
  refine Returns.bind (returns_table henabled ?_)
  refine Returns.bind (returns_table hdisarmed ?_)
  refine Returns.bind (returns_services (returns_op answers .clearRamp) fun _ e₄ => ?_)
  refine Returns.bind (returns_services (clearBuckets_returns answers sizes e₄) fun _ e₅ => ?_)
  have hown' := restored_rows own_invariant (deleted_rows hown plan)
  have h' := restored_rows resetRow_invariant (deleted_rows h plan)
  have hq' : ∀ tenantId ∈ tenants, OneQuery (restored (deleted plan t)) tenantId :=
    fun tenantId ht jobId row hl hrow => absurd ⟨row, hl, hrow⟩ (hnone tenantId ht jobId)
  refine (resetExit_returns answers hown' h' hfuel hq' e₅).mono fun code w hw => ⟨hw.1, ?_⟩
  rw [hw.2]
  exact hnone

end

/-- One run of `reset --yes` returns, given queries enough, and leaves none of the tenants' jobs. -/
def LeavesNone [Pydantic] {E : Type} (services : Handler Demo Raised Unit E) (tenant : Option String)
    (tenants : List String) (t : Table) (e : E) : Prop :=
  ∃ bound, ∀ fuel, bound ≤ fuel →
    Returns (resetCalls services)
      (fun code w => code.isSome ∧ ∀ tenantId ∈ tenants, ∀ jobId, ¬ JobOf w.1 tenantId jobId)
      (reset tenant true fuel) (t, e)

/-- On every table the operations reach, where the other services answer, the
jobs of the tenants a run covers are all found, each once, and one run leaves
none of them, exactly where one query returns each tenant's rows. -/
theorem reset_finds_iff [Pydantic] (ops : ℕ → Operation) (sched : List (ℕ × Unit)) {E : Type}
    (services : Handler Demo Raised Unit E) (answers : ∀ o e, ∃ r, services o () e = .ok r) (e : E)
    (tenant : Option String) (tenants : List String)
    (covers : (exec onPages (coveredTenants tenant) (after ops sched)).1 = .ok tenants) :
    (∀ tenantId ∈ tenants, FindsEach (after ops sched) tenantId) ∧
        LeavesNone services tenant tenants (after ops sched) e ↔
      ∀ tenantId ∈ tenants, OneQuery (after ops sched) tenantId := by
  have hown : Rows Own (after ops sched) := (reachable_own ops sched).world
  have h : Rows ResetRow (after ops sched) := reachable_rows resetRow_invariant resetRow_nil ops sched
  constructor
  · rintro ⟨hfinds, -⟩ tenantId ht
    exact (findsEach_iff hown h).mp (hfinds tenantId ht)
  · intro hq
    refine ⟨fun tenantId ht => (findsEach_iff hown h).mpr (hq tenantId ht), 2, fun fuel hfuel => ?_⟩
    exact reset_returns answers hown h hfuel covers hq e

/-- No more than a page of ids is ever returned. -/
theorem found_le [Pydantic] {ids : List String} {bound : ℕ}
    (h : ∀ fuel, bound ≤ fuel → exec onPages (jobIds tenantId fuel) t = (.ok (some ids), t)) :
    ids.length ≤ resetPage := by
  cases hjobs : ((queried tenantId resetPage t).map Sigma.snd).mapM jobFromItem with
  | error e =>
    have hraise := h (bound + 1) (Nat.le_succ bound)
    rw [jobIds_raises hjobs] at hraise
    cases hraise
  | ok jobs =>
    have hreturn := h (bound + 2) (Nat.le_add_right bound 2)
    rw [jobIds_exec hjobs (Nat.le_add_left 2 bound)] at hreturn
    cases hreturn
    have hlen : (jobs.map fun _ => ()).length = (((queried tenantId resetPage t).map Sigma.snd).map fun _ => ()).length :=
      congrArg List.length (map_of_mapM hjobs fun _ _ _ _ => rfl)
    simp only [List.length_map] at hlen
    rw [List.length_map, hlen]
    exact List.length_take_le _ _

/-! ## A flood -/

/-- A job of a flood, by its number. -/
def floodJob (i : ℕ) : Submitted where
  jobId := "flood-acme-" ++ i.repr
  tenantId := "acme"
  agentId := "incident-triage"
  createdAt := "2026-09-04T10:00:00+00:00"
  priority := { priorityKey := 3 }
  small := sessionJob.small

/-- The flood's puts. -/
def floodPut (i : ℕ) : Operation := .putJob (floodJob i).job

theorem floodJob_stored (i : ℕ) : serializeDict (jobItem (floodJob i).job) = some (floodJob i).row := by
  have hthree : storableInt 3 = true := by decide +kernel
  have hstored : (serializeDict (jobItem (floodJob i).job)).isSome := by
    simp only [jobItem, Submitted.job, queuedJob, Job.modelDump, JobStatus.value, dumpOption, toDecimalDict, toDecimal,
      List.cons_append, List.nil_append, serializeDict, serialize, floodJob, hthree, if_true]
    rfl
  obtain ⟨row, hrow⟩ := Option.isSome_iff_exists.mp hstored
  rw [hrow, (floodJob i).serialize_row hrow]

theorem floodJob_injective {i j : ℕ} (h : (floodJob i).jobId = (floodJob j).jobId) : i = j := by
  have hs : "flood-acme-".toList ++ i.repr.toList = "flood-acme-".toList ++ j.repr.toList := by
    rw [← String.toList_append, ← String.toList_append]
    exact congrArg String.toList h
  exact Nat.repr_inj.mp (String.toList_inj.mp (List.append_cancel_left hs))

/-- The table after the first `n` of them. -/
def flooded (n : ℕ) : Table := letI := digits; after floodPut ((List.range n).map fun i => (i, ()))

/-- The first `n` puts leave the rows of their jobs, and the other puts still to come. -/
theorem flooded_step (n : ℕ) :
    letI := digits
    let p := (start floodPut).run (fun _ => onTable) ((List.range n).map fun i => (i, ()))
    (∀ i < n, p.world.lookup (jobKey (floodJob i).jobId) = some (floodJob i).row) ∧
      ∀ i, n ≤ i → p.thread i = (floodPut i).prog := by
  let _ := digits
  induction n with
  | zero => exact ⟨fun i hi => absurd hi (Nat.not_lt_zero i), fun i _ => rfl⟩
  | succ n ih =>
    obtain ⟨hrows, hthreads⟩ := ih
    dsimp only
    rw [List.range_succ, List.map_append, List.map_singleton, Pool.run_snoc]
    generalize (start floodPut).run (fun _ => onTable) ((List.range n).map fun i => (i, ())) = p at hrows hthreads ⊢
    have hput : onTable (.putItem (jobKey (floodJob n).jobId) (jobItem (floodJob n).job) false) () p.world =
        .ok (true, p.world.insert (jobKey (floodJob n).jobId) (floodJob n).row) := by
      simp only [onTable, dynamo, floodJob_stored, Bool.false_and]
      rfl
    have hstep : p.step (fun _ => onTable) (n, ()) =
        ⟨p.world.insert (jobKey (floodJob n).jobId) (floodJob n).row, Function.update p.thread n (done ())⟩ :=
      Pool.step_answered (S := Dynamo) (x := (n, ())) (k := fun _ => done ()) (hthreads n le_rfl) hput
    rw [hstep]
    refine ⟨fun i hi => ?_, fun i hi => ?_⟩
    · by_cases hin : i = n
      · rw [hin, AList.lookup_insert]
      · rw [AList.lookup_insert_ne fun hk => hin (floodJob_injective (jobKey_inj.mp hk))]
        exact hrows i (by omega)
    · have hne : i ≠ n := by omega
      exact (Function.update_of_ne hne _ _).trans (hthreads i (by omega))

/-- Of 101 jobs a run finds no more than 100. -/
theorem reset_misses : ¬ @FindsEach digits (flooded 101) "acme" := by
  rintro ⟨ids, bound, hexec, -, hids⟩
  have hall : (List.range 101).map (fun i => (floodJob i).jobId) ⊆ ids := by
    intro jobId hid
    obtain ⟨i, hi, rfl⟩ := List.mem_map.mp hid
    exact (hids _).mpr ⟨_, (flooded_step 101).1 i (List.mem_range.mp hi), rfl⟩
  have hnodup : ((List.range 101).map fun i => (floodJob i).jobId).Nodup :=
    List.nodup_range.map fun _ _ h => floodJob_injective h
  have hlen := (List.subperm_of_subset hnodup hall).length_le
  rw [List.length_map, List.length_range] at hlen
  let _ := digits
  have hle : 101 ≤ resetPage := hlen.trans (found_le hexec)
  simp [resetPage] at hle

/-- Services that have nothing to delete. -/
def idleServices : Handler Demo Raised Unit Unit
  | .memoryEvents _, _, _ => .ok ([], ())
  | .deleteEvent _ _, _, _ => .ok ((), ())
  | .bucketSize _, _, _ => .ok (some 0, ())
  | .clearBucket _, _, _ => .ok ((), ())
  | .clearRamp, _, _ => .ok ((), ())

theorem reset_finds_iff_flooded :
    letI := digits
    ((∀ tenantId ∈ ["acme"], FindsEach (flooded 3) tenantId) ∧
        LeavesNone idleServices (some "acme") ["acme"] (flooded 3) ()) ↔
      ∀ tenantId ∈ ["acme"], OneQuery (flooded 3) tenantId := by
  let _ := digits
  refine reset_finds_iff floodPut _ idleServices (fun o e => ?_) () (some "acme") ["acme"] rfl
  cases o with
  | _ => exact ⟨_, rfl⟩

end ControlPlane
