import ControlPlane.Lib.Rank
import ControlPlane.Registry.Scans

/-!
# How long a tenant's jobs wait

`app/registry/metrics.py`: a job waits from its creation to its start
(`waitSeconds`), and of the waits among a tenant's newest jobs
`tenantWaitP95` takes the 95th percentile. `0.95` is 19/20 here.

`tenantWaitP95_nearestRank`: it is the least wait that 95 % of the jobs that
have started waited no longer than.
-/

namespace ControlPlane

open Binary64 (Double)
open Effect Effect.Prog

/-! ## Waits -/

/-- A time that `datetime.fromisoformat` reads, in microseconds since 1970. -/
structure Instant where
  micros : ℤ
  bound : |micros| < 10 ^ 18

def readInstant (s : String) : Except Raised Instant :=
  ((fromisoformat s).pmap Instant.mk fun _ h => abs_lt.mpr (fromisoformat_bound h)).elim
    (.error (.valueError ("Invalid isoformat string: " ++ pyRepr s))) .ok

theorem abs_round_lt {q : ℚ} {n : ℤ} (hn : n ≤ 2 ^ 53) (h : |q| ≤ n) : |Binary64.round q| < 2 ^ 1024 := by
  have hpos : 0 ≤ n := by exact_mod_cast (abs_nonneg q).trans h
  obtain ⟨hlo, hhi⟩ := abs_le.mp h
  have hlo := Binary64.round_mono hlo
  have hhi := Binary64.round_mono hhi
  rw [← Int.cast_neg, Binary64.round_int (by rw [abs_neg, abs_of_nonneg hpos]; exact hn), Int.cast_neg] at hlo
  rw [Binary64.round_int (by rw [abs_of_nonneg hpos]; exact hn)] at hhi
  calc |Binary64.round q| ≤ n := abs_le.mpr ⟨hlo, hhi⟩
    _ ≤ 2 ^ 53 := by exact_mod_cast hn
    _ < 2 ^ 1024 := pow_lt_pow_right₀ (by norm_num) (by decide)

/-- `(started - created).total_seconds()`. -/
def totalSeconds (created started : Instant) : Double where
  val := Binary64.round ((started.micros - created.micros : ℤ) / 10 ^ 6)
  round_val := Binary64.round_round _
  lt_max := by
    refine abs_round_lt (n := 2 * 10 ^ 12) (by norm_num) ?_
    have hle : |started.micros - created.micros| ≤ 2 * 10 ^ 18 := by
      have hs := abs_lt.mp started.bound
      have hc := abs_lt.mp created.bound
      exact abs_le.mpr ⟨by omega, by omega⟩
    rw [abs_div, abs_of_pos (by norm_num : (0 : ℚ) < 10 ^ 6), div_le_iff₀ (by norm_num)]
    calc |((started.micros - created.micros : ℤ) : ℚ)| ≤ ((2 * 10 ^ 18 : ℤ) : ℚ) := by exact_mod_cast hle
      _ = ((2 * 10 ^ 12 : ℤ) : ℚ) * 10 ^ 6 := by norm_num

def waitSeconds (job : Job) : Except Raised (Option Double) :=
  match job.startedAt with
  | none => .ok none
  | some startedAt => do
    let created ← readInstant job.createdAt
    let started ← readInstant startedAt
    return some (totalSeconds created started)

section

variable [Pydantic]

/-- The tenant's p95 wait, in seconds, over its newest `limit` jobs. -/
def tenantWaitP95 (tenantId : String) (limit : ℕ := 200) : Repo (Option Double) := do
  let jobs ← listJobsForTenant tenantId limit
  let waits := ((← ofExcept (jobs.mapM waitSeconds)).reduceOption).insertionSort (· ≤ ·)
  if waits = [] then return none
  let rank := ⌈(19 / 20 : ℚ) * waits.length⌉ - 1
  return waits[(max 0 (min rank ((waits.length : ℤ) - 1))).toNat]?

end

/-! ## The percentile -/

/-- The wait of a job that has started. -/
def wait (job : Job) : Option Double := (waitSeconds job).toOption.join

def startedJobs (jobs : List Job) : List Job := jobs.filter fun job => job.startedAt.isSome

/-- The job waited no longer. -/
def waitedAtMost (longest : Double) (job : Job) : Bool := (wait job).any (· ≤ longest)

/-- The job has not started, or both of its stamps are times. -/
def Stamped (job : Job) : Prop :=
  ∀ startedAt ∈ job.startedAt, (fromisoformat job.createdAt).isSome ∧ (fromisoformat startedAt).isSome

/-- What the 95th percentile is, by nearest rank: nothing if no job has
started, else the least wait that 95 % of those that have waited no longer than. -/
structure NearestRank (jobs : List Job) (result : Option Double) : Prop where
  none_iff : result = none ↔ ∀ job ∈ jobs, job.startedAt = none
  least : ∀ p95, result = some p95 → IsLeast {v | (∃ job ∈ jobs, waitSeconds job = .ok (some v)) ∧
    19 * (startedJobs jobs).length ≤ 20 * (startedJobs jobs).countP (waitedAtMost v)} p95

variable {jobs : List Job} {job : Job} {limit : ℕ} {tenantId : String} {W : Type}

theorem readInstant_ok {s : String} (h : (fromisoformat s).isSome) : ∃ t, readInstant s = .ok t := by
  obtain ⟨t, ht⟩ := Option.isSome_iff_exists.mp h
  exact ⟨⟨t, abs_lt.mpr (fromisoformat_bound ht)⟩, by simp [readInstant, ht]⟩

/-- What `waitSeconds` is of a job with such stamps. -/
theorem waitSeconds_ok (h : Stamped job) :
    waitSeconds job = .ok (wait job) ∧ (wait job).isSome = job.startedAt.isSome := by
  cases hs : job.startedAt with
  | none => simp [wait, waitSeconds, hs, Except.toOption]
  | some startedAt =>
    obtain ⟨hcreated, hstarted⟩ := h startedAt hs
    obtain ⟨created, hcreated⟩ := readInstant_ok hcreated
    obtain ⟨started, hstarted⟩ := readInstant_ok hstarted
    have hok : waitSeconds job = .ok (some (totalSeconds created started)) := by
      simp only [waitSeconds, hs, hcreated, hstarted]
      rfl
    exact ⟨by rw [wait, hok]; rfl, by rw [wait, hok]; rfl⟩

theorem readInstant_isSome {s : String} {t : Instant} (h : readInstant s = .ok t) : (fromisoformat s).isSome := by
  cases hs : fromisoformat s with
  | none => simp [readInstant, hs] at h
  | some t => rfl

theorem stamped_of_ok {v : Option Double} (h : waitSeconds job = .ok v) : Stamped job := by
  intro startedAt hs
  rw [waitSeconds, Option.mem_def.mp hs] at h
  dsimp only at h
  cases hcreated : readInstant job.createdAt with
  | error e =>
    rw [hcreated] at h
    cases h
  | ok created =>
    cases hstarted : readInstant startedAt with
    | error e =>
      rw [hcreated, hstarted] at h
      cases h
    | ok started => exact ⟨readInstant_isSome hcreated, readInstant_isSome hstarted⟩

theorem mapM_waitSeconds (h : ∀ job ∈ jobs, Stamped job) : jobs.mapM waitSeconds = .ok (jobs.map wait) := by
  induction jobs with
  | nil => rfl
  | cons job jobs ih =>
    rw [List.mapM_cons, (waitSeconds_ok (h job List.mem_cons_self)).1, ih fun j hj => h j (List.mem_cons_of_mem _ hj)]
    rfl

/-- The waits are those of the jobs that have started. -/
theorem length_waits (h : ∀ job ∈ jobs, Stamped job) : (jobs.filterMap wait).length = (startedJobs jobs).length := by
  rw [List.length_filterMap_eq_countP, startedJobs, ← List.countP_eq_length_filter]
  exact List.countP_congr fun job hj => by rw [(waitSeconds_ok (h job hj)).2]

theorem countP_waits (h : ∀ job ∈ jobs, Stamped job) (longest : Double) :
    (jobs.filterMap wait).countP (· ≤ longest) = (startedJobs jobs).countP (waitedAtMost longest) := by
  rw [List.countP_filterMap, startedJobs, List.countP_filter]
  refine List.countP_congr fun job hj => ?_
  have hsome := (waitSeconds_ok (h job hj)).2
  unfold waitedAtMost
  cases hw : wait job with
  | none => simp
  | some v => simp [← hsome, hw]

theorem nearestRank_waits (hstamps : ∀ job ∈ jobs, Stamped job) : NearestRank jobs
    ((jobs.filterMap wait).insertionSort (· ≤ ·))[Rank.place (19 / 20) (jobs.filterMap wait).length]? where
  none_iff := by
    have hlen : (jobs.filterMap wait).length = 0 ↔ ∀ job ∈ jobs, job.startedAt = none := by
      simp [length_waits hstamps, startedJobs]
    rw [← hlen, List.getElem?_eq_none_iff, List.length_insertionSort]
    constructor
    · intro hle
      by_contra hne
      exact absurd (Rank.place_lt (Nat.pos_of_ne_zero hne)) (not_lt.mpr hle)
    · intro hzero
      rw [hzero]
      exact Nat.zero_le _
  least p95 hp := by
    obtain ⟨hi, rfl⟩ := List.getElem?_eq_some_iff.mp hp
    have hpos : 0 < (jobs.filterMap wait).length := by
      rw [List.length_insertionSort] at hi
      omega
    have hleast := Rank.isLeast_getElem (List.pairwise_insertionSort (· ≤ ·) (jobs.filterMap wait)) hi
    have hset (v : Double) : (v ∈ (jobs.filterMap wait).insertionSort (· ≤ ·) ∧
        Rank.place (19 / 20) (jobs.filterMap wait).length < ((jobs.filterMap wait).insertionSort (· ≤ ·)).countP (· ≤ v)) ↔
        (∃ job ∈ jobs, waitSeconds job = .ok (some v)) ∧
          19 * (startedJobs jobs).length ≤ 20 * (startedJobs jobs).countP (waitedAtMost v) := by
      rw [(List.perm_insertionSort _ _).countP_eq, countP_waits hstamps, List.mem_insertionSort, List.mem_filterMap,
        Rank.place_lt_iff (by norm_num) (by norm_num) hpos, length_waits hstamps]
      refine and_congr (exists_congr fun job => and_congr_right fun hj => ?_) ?_
      · rw [(waitSeconds_ok (hstamps job hj)).1, Except.ok.injEq]
      · rw [div_mul_eq_mul_div, div_le_iff₀ (by norm_num), mul_comm ((startedJobs jobs).countP _ : ℚ)]
        norm_cast
    simpa only [hset] using hleast

section

variable [Pydantic] {h : Handler Dynamo Raised Unit W} {w w' : W}

theorem exec_tenantWaitP95 (hjobs : exec h (listJobsForTenant tenantId limit) w = (.ok jobs, w'))
    (hstamps : ∀ job ∈ jobs, Stamped job) : exec h (tenantWaitP95 tenantId limit) w =
      (.ok ((jobs.filterMap wait).insertionSort (· ≤ ·))[Rank.place (19 / 20) (jobs.filterMap wait).length]?, w') := by
  have hwaits : (jobs.map wait).reduceOption = jobs.filterMap wait := by
    rw [List.reduceOption, List.filterMap_map]
    rfl
  unfold tenantWaitP95
  rw [exec_bind, hjobs]
  dsimp only
  rw [exec_bind, exec_ofExcept, mapM_waitSeconds hstamps]
  dsimp only
  rw [hwaits]
  split
  · rename_i hnil
    rw [hnil]
    rfl
  · rw [List.length_insertionSort]
    rfl

/-- A stamp that is no time raises. -/
theorem stamped_of_exec (hjobs : exec h (listJobsForTenant tenantId limit) w = (.ok jobs, w')) {result : Option Double}
    (hr : exec h (tenantWaitP95 tenantId limit) w = (.ok result, w')) : ∀ job ∈ jobs, Stamped job := by
  unfold tenantWaitP95 at hr
  rw [exec_bind, hjobs] at hr
  dsimp only at hr
  rw [exec_bind, exec_ofExcept] at hr
  cases hm : jobs.mapM waitSeconds with
  | error e =>
    rw [hm] at hr
    cases hr
  | ok waits =>
    intro job hj
    obtain ⟨v, hv⟩ := exists_of_mapM hm job hj
    exact stamped_of_ok hv

/-- For every list of jobs, of any length, in any order and with any of them
not started, the result is the 95th percentile of the waits; there is one
exactly if each stamp is a time, as those that `isoformat` writes are. -/
theorem tenantWaitP95_nearestRank (hjobs : exec h (listJobsForTenant tenantId limit) w = (.ok jobs, w')) :
    ((∃ result, exec h (tenantWaitP95 tenantId limit) w = (.ok result, w')) ↔ ∀ job ∈ jobs, Stamped job) ∧
      ∀ result, exec h (tenantWaitP95 tenantId limit) w = (.ok result, w') → NearestRank jobs result := by
  refine ⟨⟨fun ⟨_, hr⟩ => stamped_of_exec hjobs hr, fun hs => ⟨_, exec_tenantWaitP95 hjobs hs⟩⟩, fun result hr => ?_⟩
  have hstamps := stamped_of_exec hjobs hr
  rw [exec_tenantWaitP95 hjobs hstamps] at hr
  cases hr
  exact nearestRank_waits hstamps

end

/-- Two jobs that have started, and one that has not. -/
def threeJobs : List Job :=
  [{ jobId := "job-1", tenantId := "acme", agentId := "incident-triage", workflowId := "job-1", status := .running,
     priorityKey := 3, createdAt := "2026-09-02T14:02:00+00:00", startedAt := some "2026-09-02T14:02:10+00:00" },
   { jobId := "job-2", tenantId := "acme", agentId := "incident-triage", workflowId := "job-2", status := .running,
     priorityKey := 3, createdAt := "2026-09-02T14:02:00.000250+00:00", startedAt := some "2026-09-02T14:02:04+00:00" },
   { jobId := "job-3", tenantId := "acme", agentId := "incident-triage", workflowId := "job-3", status := .queued,
     priorityKey := 3, createdAt := "2026-09-02T14:02:05+00:00" }]

@[irreducible] def threeJobsTable : Table := (exec onTable (threeJobs.forM putJob) ∅).2

theorem tenantWaitP95_nearestRank_threeJobs :
    letI := digits
    ∃ jobs result, exec onTable (listJobsForTenant "acme" 200) threeJobsTable = (.ok jobs, threeJobsTable) ∧
      exec onTable (tenantWaitP95 "acme") threeJobsTable = (.ok result, threeJobsTable) ∧ NearestRank jobs result := by
  let _ := digits
  have hall : ((exec onTable (listJobsForTenant "acme" 200) threeJobsTable).1.toOption.any fun jobs =>
      jobs.all fun job => job.startedAt.all fun startedAt =>
        (fromisoformat job.createdAt).isSome && (fromisoformat startedAt).isSome) = true := by decide +kernel
  obtain ⟨answer, hanswer⟩ : ∃ answer, exec onTable (listJobsForTenant "acme" 200) threeJobsTable = (answer, threeJobsTable) :=
    ⟨_, exec_ofExcept _ _ _⟩
  rw [hanswer] at hall
  cases answer with
  | error e => cases hall
  | ok jobs =>
    have hstamps : ∀ job ∈ jobs, Stamped job := by
      intro job hj startedAt hs
      have hjob := List.all_eq_true.mp hall job hj
      rw [Option.mem_def.mp hs] at hjob
      simpa using hjob
    obtain ⟨hreturns, hrank⟩ := tenantWaitP95_nearestRank hanswer
    obtain ⟨result, hr⟩ := hreturns.mpr hstamps
    exact ⟨jobs, result, hanswer, hr, hrank result hr⟩

end ControlPlane
