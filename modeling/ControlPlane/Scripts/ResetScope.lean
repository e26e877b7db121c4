import ControlPlane.Lib.Asked
import ControlPlane.Scripts.Reset

/-!
# What a reset touches, and what its exit code says

Runs of `reset` among services that answer anything, where any call may fail,
carried out or not (`resetRun`).

* `reset_scope`: wherever a run stops, it has touched the rows of the covered
  tenants' jobs, the two settings, and of the services what it was shown; a dry
  run has touched nothing.
* `reset_certifies`: exit code 0 of a run that is none is the truth: no job of a
  covered tenant is left, the settings are restored, and the services were last
  seen empty. This holds though a run may miss jobs.
-/

namespace ControlPlane

open Effect Effect.Prog

/-- The table and the log of the other services' calls. -/
abbrev DemoWorld := Table × List (Asked Demo)

def askedEvents (tenantId : String) (events : List String) : Asked Demo := ⟨.memoryEvents tenantId, events⟩

def askedSize (bucket : String) (size : Option ℕ) : Asked Demo := ⟨.bucketSize bucket, size⟩

/-- The call changes something. -/
def DemoOp.Changes : DemoOp → Prop
  | deleteEvent _ _ => True
  | clearBucket _ => True
  | clearRamp => True
  | _ => False

section

variable [Pydantic]

/-- A run of `main` from a table. -/
def resetRun (tenant : Option String) (yes : Bool) (fuel : ℕ) (choices : List (Fate × Answers Demo)) (t : Table) :
    Outcome Raised (Option ℕ) × DemoWorld :=
  run (amongServices onPages).lossy ((reset tenant yes fuel).lossy .requestError) choices (t, [])

/-- The tenant is one that the run covers. -/
def Covered (tenant : Option String) (t : Table) (tenantId : String) : Prop :=
  ∃ tenants, (exec onPages (coveredTenants tenant) t).1 = .ok tenants ∧ tenantId ∈ tenants

/-- The row is a job's of a covered tenant, or its result's. -/
def OfCoveredJob (tenant : Option String) (t : Table) (key : Key) : Prop :=
  ∃ tenantId jobId, Covered tenant t tenantId ∧ JobOf t tenantId jobId ∧ (key = jobKey jobId ∨ key = jobResultKey jobId)

/-- What a run may have done, from the table `t`. -/
structure ResetScope (tenant : Option String) (yes : Bool) (t : Table) (w : DemoWorld) : Prop where
  rows : ∀ key, w.1.lookup key ≠ t.lookup key →
    yes = true ∧ (key = fairnessKey ∨ key = killSwitchKey ∨ OfCoveredJob tenant t key)
  calls : ∀ asked ∈ w.2, asked.1.Changes → yes = true
  events : ∀ tenantId eventId done, (⟨.deleteEvent tenantId eventId, done⟩ : Asked Demo) ∈ w.2 →
    Covered tenant t tenantId ∧ ∃ events, askedEvents tenantId events ∈ w.2 ∧ eventId ∈ events
  buckets : ∀ bucket done, (⟨.clearBucket bucket, done⟩ : Asked Demo) ∈ w.2 →
    bucket ∈ mockoonBuckets ∧ ∃ size, askedSize bucket (some size) ∈ w.2

/-- What the exit code 0 says. -/
structure DemoClean (tenants : List String) (w : DemoWorld) : Prop where
  jobs : ∀ tenantId ∈ tenants, ∀ jobId, ¬ JobOf w.1 tenantId jobId
  fairness : exec onPages getFairnessSetting w.1 = (.ok { enabled := true }, w.1)
  killSwitch : exec onPages getKillSwitch w.1 = (.ok { armed := false }, w.1)
  /-- The last calls of the services. -/
  services : ∃ earlier, w.2 = earlier ++ (tenants.map fun tenantId => askedEvents tenantId []) ++
    mockoonBuckets.map fun bucket => askedSize bucket (some 0)

end

/-- No row is larger than DynamoDB stores: 400 KB. -/
def SmallRows (t : Table) : Prop := ∀ key row, t.lookup key = some row → rowBytes ⟨key, row⟩ ≤ 400 * 1024

/-! ## The reads -/

/-- A call that only reads. -/
def OnlyReads (o : DynamoOp) : Prop := o.writes = none

theorem onPages_reads (o : DynamoOp) (t : Table) (a : o.Ans) (t' : Table) (ho : OnlyReads o)
    (h : onPages o () t = .ok (a, t')) : t' = t := dynamo_read ho h

section

variable [Pydantic]

theorem coveredTenants_calls (tenant : Option String) : Calls (S := Dynamo) OnlyReads (coveredTenants tenant) := by
  unfold coveredTenants
  split
  · trivial
  · exact Calls.bind ⟨rfl, fun items => Calls.ofExcept _⟩ fun _ => trivial

theorem jobIdsFrom_calls (tenantId : String) (fuel : ℕ) (seen : List String) :
    Calls (S := Dynamo) OnlyReads (jobIdsFrom tenantId fuel seen) := by
  induction fuel generalizing seen with
  | zero => trivial
  | succ fuel ih =>
    refine Calls.bind ⟨rfl, fun items => Calls.ofExcept _⟩ fun page => ?_
    dsimp only
    split
    · trivial
    · split
      · trivial
      · exact ih _

theorem jobPlan_calls (fuel : ℕ) (tenants : List String) : Calls (S := Dynamo) OnlyReads (jobPlan fuel tenants) := by
  induction tenants with
  | nil => trivial
  | cons tenantId rest ih =>
    refine Calls.bind (jobIdsFrom_calls tenantId fuel []) fun ids => Calls.bind ih fun plan => ?_
    cases ids with
    | none => trivial
    | some ids =>
      cases plan with
      | none => trivial
      | some plan => trivial

omit [Pydantic] in
theorem getFairness_calls : Calls (S := Dynamo) OnlyReads getFairnessSetting :=
  (calls_getRow (P := OnlyReads) rfl _).bind fun _ => trivial

omit [Pydantic] in
theorem getKillSwitch_calls : Calls (S := Dynamo) OnlyReads getKillSwitch :=
  (calls_getRow (P := OnlyReads) rfl _).bind fun _ => trivial

omit [Pydantic] in
/-- What only reads leaves the table. -/
theorem exec_onlyReads {α : Type} {p : Repo α} (hp : Calls (S := Dynamo) OnlyReads p) (t : Table) :
    (exec onPages p t).2 = t :=
  exec_of_calls (I := (· = t)) (fun o v a v' ho hv hc => (onPages_reads o v a v' ho hc).trans hv) hp rfl

variable {t : Table} {tenantId : String} {fuel : ℕ}

/-- The ids that are found are those of the rows one query returns. -/
theorem jobIds_found {ids : List String} (h : (exec onPages (jobIds tenantId fuel) t).1 = .ok (some ids)) :
    ∃ jobs, ((queried tenantId resetPage t).map Sigma.snd).mapM jobFromItem = .ok jobs ∧ ids = jobs.map Job.jobId := by
  cases fuel with
  | zero => cases h
  | succ n =>
    cases hjobs : ((queried tenantId resetPage t).map Sigma.snd).mapM jobFromItem with
    | error e =>
      rw [jobIds_raises hjobs] at h
      cases h
    | ok jobs =>
      refine ⟨jobs, rfl, ?_⟩
      cases n with
      | succ n =>
        rw [jobIds_exec hjobs (by omega)] at h
        cases h
        rfl
      | zero =>
        -- of one query: there are no ids, or fewer than a page, or it is not done
        rw [jobIds, jobIdsFrom, exec_bind, listJobsForTenant_pages, hjobs] at h
        have hall : (jobs.map Job.jobId).filter (· ∉ ([] : List String)) = jobs.map Job.jobId :=
          List.filter_eq_self.mpr fun id _ => decide_eq_true List.not_mem_nil
        simp only [hall, List.nil_append] at h
        split at h
        · rename_i hnil
          cases h
          exact hnil.symm
        · split at h
          · cases h
            rfl
          · cases h

/-- Each id of the plan is a covered tenant's, and where there is none no query returned a row. -/
theorem jobPlan_found {tenants plan : List String} (h : (exec onPages (jobPlan fuel tenants) t).1 = .ok (some plan)) :
    (∀ jobId ∈ plan, ∃ tenantId ∈ tenants, ∃ jobs,
      ((queried tenantId resetPage t).map Sigma.snd).mapM jobFromItem = .ok jobs ∧ jobId ∈ jobs.map Job.jobId) ∧
        (plan = [] → ∀ tenantId ∈ tenants, queried tenantId resetPage t = []) := by
  induction tenants generalizing plan with
  | nil =>
    cases h
    exact ⟨fun _ hid => absurd hid List.not_mem_nil, fun _ _ ht => absurd ht List.not_mem_nil⟩
  | cons tenantId rest ih =>
    obtain ⟨first, hfirst, h⟩ := exec_bind_ok h
    have hsame : (exec onPages (jobIds tenantId fuel) t).2 = t := exec_onlyReads (jobIdsFrom_calls tenantId fuel []) t
    rw [hsame] at h
    obtain ⟨others, hothers, h⟩ := exec_bind_ok h
    rw [exec_onlyReads (jobPlan_calls fuel rest)] at h
    cases first with
    | none => cases h
    | some ids =>
      cases others with
      | none => cases h
      | some others =>
        cases h
        obtain ⟨jobs, hjobs, rfl⟩ := jobIds_found hfirst
        obtain ⟨hmem, hnil⟩ := ih hothers
        refine ⟨fun jobId hid => ?_, fun hnone => ?_⟩
        · rcases List.mem_append.mp hid with hid | hid
          · exact ⟨tenantId, List.mem_cons_self, jobs, hjobs, hid⟩
          · obtain ⟨other, ho, hof⟩ := hmem jobId hid
            exact ⟨other, List.mem_cons_of_mem tenantId ho, hof⟩
        · obtain ⟨hids, hothers⟩ := List.append_eq_nil_iff.mp hnone
          rw [List.map_eq_nil_iff] at hids
          have hlength := length_of_mapM hjobs
          rw [hids, List.length_nil, List.length_map] at hlength
          exact List.forall_mem_cons.mpr ⟨List.length_eq_zero_iff.mp hlength.symm, hnil hothers⟩

end

/-! ## What a run keeps -/

/-- What is known of the world in a run: the rows are as the operations leave
them, and no larger than they were or a setting is. -/
structure ResetWorld [Pydantic] (tenant : Option String) (yes : Bool) (t : Table) (w : DemoWorld) : Prop where
  scope : ResetScope tenant yes t w
  own : Rows Own w.1
  row : Rows ResetRow w.1
  small : SmallRows t → SmallRows w.1

section

variable [Pydantic] {tenant : Option String} {yes : Bool} {t : Table} {w : DemoWorld}

/-- The log only grows. -/
theorem ResetScope.log (h : ResetScope tenant yes t w) {asked : Asked Demo} (hc : asked.1.Changes → yes = true)
    (hevents : ∀ tenantId eventId done, (⟨.deleteEvent tenantId eventId, done⟩ : Asked Demo) = asked →
      Covered tenant t tenantId ∧ ∃ events, askedEvents tenantId events ∈ w.2 ∧ eventId ∈ events)
    (hbuckets : ∀ bucket done, (⟨.clearBucket bucket, done⟩ : Asked Demo) = asked →
      bucket ∈ mockoonBuckets ∧ ∃ size, askedSize bucket (some size) ∈ w.2) :
    ResetScope tenant yes t (w.1, w.2 ++ [asked]) := by
  refine ⟨h.rows, fun other ho => ?_, fun tenantId eventId done hd => ?_, fun bucket done hd => ?_⟩
  · rcases List.mem_append.mp ho with ho | ho
    · exact h.calls other ho
    · rw [List.mem_singleton.mp ho]
      exact hc
  · have hknown : Covered tenant t tenantId ∧ ∃ events, askedEvents tenantId events ∈ w.2 ∧ eventId ∈ events := by
      rcases List.mem_append.mp hd with hd | hd
      · exact h.events tenantId eventId done hd
      · exact hevents tenantId eventId done (List.mem_singleton.mp hd)
    obtain ⟨hcov, events, hmem, hin⟩ := hknown
    exact ⟨hcov, events, List.mem_append_left _ hmem, hin⟩
  · have hknown : bucket ∈ mockoonBuckets ∧ ∃ size, askedSize bucket (some size) ∈ w.2 := by
      rcases List.mem_append.mp hd with hd | hd
      · exact h.buckets bucket done hd
      · exact hbuckets bucket done (List.mem_singleton.mp hd)
    obtain ⟨hb, size, hmem⟩ := hknown
    exact ⟨hb, size, List.mem_append_left _ hmem⟩

/-- A call that only asks. -/
theorem ResetWorld.asks (h : ResetWorld tenant yes t w) (o : DemoOp) (ho : ¬ o.Changes) (a : o.Ans) :
    ResetWorld tenant yes t (w.1, w.2 ++ [⟨o, a⟩]) := by
  refine ⟨h.scope.log (fun hc => absurd hc ho) (fun tenantId eventId done he => ?_) fun bucket done he => ?_,
    h.own, h.row, h.small⟩
  · cases he
    exact absurd trivial ho
  · cases he
    exact absurd trivial ho

/-- A row is deleted that may be. -/
theorem ResetWorld.erase (h : ResetWorld tenant true t w) {key : Key} (hk : OfCoveredJob tenant t key) :
    ResetWorld tenant true t (w.1.erase key, w.2) := by
  refine ⟨⟨fun k hne => ?_, h.scope.calls, h.scope.events, h.scope.buckets⟩, h.own.erase key, h.row.erase key,
    fun hsmall k row hl => ?_⟩
  · by_cases hkey : k = key
    · subst hkey
      exact ⟨rfl, .inr (.inr hk)⟩
    · have hne : (w.1.erase key).lookup k ≠ t.lookup k := hne
      rw [AList.lookup_erase_ne hkey] at hne
      exact h.scope.rows k hne
  · have hl : (w.1.erase key).lookup k = some row := hl
    by_cases hkey : k = key
    · subst hkey
      rw [AList.lookup_erase] at hl
      cases hl
    · rw [AList.lookup_erase_ne hkey] at hl
      exact h.small hsmall k row hl

/-- A setting is put. -/
theorem ResetWorld.put (h : ResetWorld tenant true t w) {e : Entity} {attrs row : Attrs}
    (he : e = .fairness ∨ e = .killSwitch) (hst : Stored e attrs) (hs : serializeDict attrs = some row)
    (hsmall : rowBytes ⟨e.key, row⟩ ≤ 400 * 1024) : ResetWorld tenant true t (w.1.insert e.key row, w.2) := by
  refine ⟨⟨fun k hne => ?_, h.scope.calls, h.scope.events, h.scope.buckets⟩, h.own.insert (own_invariant.put hst hs),
    h.row.insert (resetRow_invariant.put hst hs), fun hold k r hl => ?_⟩
  · by_cases hkey : k = e.key
    · refine ⟨rfl, ?_⟩
      rcases he with rfl | rfl
      · exact .inl hkey
      · exact .inr (.inl hkey)
    · have hne : (w.1.insert e.key row).lookup k ≠ t.lookup k := hne
      rw [AList.lookup_insert_ne hkey] at hne
      exact h.scope.rows k hne
  · have hl : (w.1.insert e.key row).lookup k = some r := hl
    by_cases hkey : k = e.key
    · subst hkey
      rw [AList.lookup_insert] at hl
      cases hl
      exact hsmall
    · rw [AList.lookup_insert_ne hkey] at hl
      exact h.small hold k r hl

/-! ## The exit code -/

/-- Where a query returns no row there is none: the first always fits a page. -/
theorem noJob_of_queried {tenantId : String} (h : ResetWorld tenant yes t w) (hsmall : SmallRows t)
    (hq : queried tenantId resetPage w.1 = []) (jobId : String) : ¬ JobOf w.1 tenantId jobId := by
  intro hjob
  obtain ⟨row, sk, hl, hi⟩ := (jobOf_iff h.row).mp hjob
  have hmem : (⟨jobKey jobId, row⟩ : Row) ∈ selectIndex tenantId w.1.entries :=
    (Listing.mem_select (l := .jobsForTenant tenantId resetPage)).mpr ⟨AList.mem_lookup_iff.mp hl, sk, hi⟩
  cases hrows : selectIndex tenantId w.1.entries with
  | nil =>
    rw [hrows] at hmem
    cases hmem
  | cons r rows =>
    have hr : r ∈ selectIndex tenantId w.1.entries := hrows ▸ List.mem_cons_self
    have hentry := ((Listing.mem_select (l := .jobsForTenant tenantId resetPage)).mp hr).1
    have hfits : rowBytes r ≤ 1024 * 1024 := 
      (h.small hsmall r.1 r.2 (AList.mem_lookup_iff.mpr hentry)).trans (by norm_num)
    rw [queried, firstPage, hrows, fitting, if_pos hfits, resetPage, List.take_succ_cons] at hq
    cases hq

/-- Asking for the events of some tenants, one after another. -/
theorem memoryEvents_safe (h : ResetWorld tenant yes t w) (tenants : List String) :
    Safe onServices (ResetWorld tenant yes t) (fun events w' => ∃ pairs : List (String × List String),
      pairs.map Prod.fst = tenants ∧ pairs.map Prod.snd = events ∧ ResetWorld tenant yes t w' ∧
        w' = (w.1, w.2 ++ pairs.map fun pair => askedEvents pair.1 pair.2)) (tenants.mapM memoryEvents) w := by
  refine Safe.mapM (J := fun pairs w' => ResetWorld tenant yes t w' ∧
    w' = (w.1, w.2 ++ pairs.map fun pair => askedEvents pair.1 pair.2)) (fun tenantId _ done w' hw => ?_) ⟨h, by simp⟩
  refine Safe.asks hw.1 fun events => ⟨hw.1.asks (.memoryEvents tenantId) id events, ?_⟩
  rw [hw.2, List.map_append, ← List.append_assoc]
  rfl

theorem bucketSize_safe (h : ResetWorld tenant yes t w) (buckets : List String) :
    Safe onServices (ResetWorld tenant yes t) (fun sizes w' => ∃ pairs : List (String × Option ℕ),
      pairs.map Prod.fst = buckets ∧ pairs.map Prod.snd = sizes ∧ ResetWorld tenant yes t w' ∧
        w' = (w.1, w.2 ++ pairs.map fun pair => askedSize pair.1 pair.2)) (buckets.mapM bucketSize) w := by
  refine Safe.mapM (J := fun pairs w' => ResetWorld tenant yes t w' ∧
    w' = (w.1, w.2 ++ pairs.map fun pair => askedSize pair.1 pair.2)) (fun bucket _ done w' hw => ?_) ⟨h, by simp⟩
  refine Safe.asks hw.1 fun size => ⟨hw.1.asks (.bucketSize bucket) id size, ?_⟩
  rw [hw.2, List.map_append, ← List.append_assoc]
  rfl

/-- A part that only reads, with what it finds. -/
theorem reads_safe {α : Type} {p : Repo α} (hp : Calls (S := Dynamo) OnlyReads p) (h : ResetWorld tenant yes t w)
    {Q : α → DemoWorld → Prop} (hQ : ∀ a, exec onPages p w.1 = (.ok a, w.1) → Q a w) :
    Safe (amongServices onPages) (ResetWorld tenant yes t) Q p.inl w :=
  Safe.inl (Safe.finds onPages_reads hp h hQ)

omit [Pydantic] in
/-- Where the second parts are all the same. -/
theorem map_const {β γ δ : Type} {f : β → γ → δ} {y : γ} {pairs : List (β × γ)} (h : ∀ z ∈ pairs.map Prod.snd, z = y) :
    (pairs.map fun pair => f pair.1 pair.2) = (pairs.map Prod.fst).map fun x => f x y := by
  rw [List.map_map]
  refine List.map_congr_left fun pair hp => ?_
  rw [h pair.2 (List.mem_map_of_mem hp)]
  rfl

theorem resetExit_safe (h : ResetWorld tenant yes t w) (tenants : List String) (fuel : ℕ) :
    Safe (amongServices onPages) (ResetWorld tenant yes t)
      (fun code w' => ResetWorld tenant yes t w' ∧ (SmallRows t → code = some 0 → DemoClean tenants w'))
      (resetExit tenants fuel) w := by
  refine Safe.bind (reads_safe (jobPlan_calls fuel tenants) h fun plan hplan => ?_)
  refine Safe.bind ((Safe.inr (memoryEvents_safe h tenants)).mono fun events w₁ hw₁ => ?_)
  obtain ⟨asked, hasked, hevents, h₁, rfl⟩ := hw₁
  refine Safe.bind ((Safe.inr (bucketSize_safe h₁ mockoonBuckets)).mono fun sizes w₂ hw₂ => ?_)
  obtain ⟨sized, hsized, hsizes, h₂, rfl⟩ := hw₂
  have hone : (some 1 : Option ℕ) ≠ some 0 := by decide
  cases plan with
  | none => exact ⟨h₂, fun _ h => by cases h⟩
  | some plan =>
    dsimp only
    split
    · rename_i hnone
      refine Safe.bind (reads_safe getFairness_calls h₂ fun fairness hfairness => ?_)
      split
      · rename_i henabled
        refine Safe.bind (reads_safe getKillSwitch_calls h₂ fun killSwitch hswitch => ?_)
        split
        · exact ⟨h₂, fun _ h => absurd h hone⟩
        · rename_i harmed
          refine ⟨h₂, fun hsmall hcode => ?_⟩
          have hplanned : plan = [] := List.length_eq_zero_iff.mp hnone.1
          have hqueried := (jobPlan_found (congrArg Prod.fst hplan)).2 hplanned
          have hlisted : ∀ z ∈ asked.map Prod.snd, z = [] := by
            rw [hevents]
            exact List.flatten_eq_nil_iff.mp (List.length_eq_zero_iff.mp hnone.2)
          have hall : sizes.all (· = some 0) = true := by
            by_contra hne
            rw [if_neg hne] at hcode
            exact hone hcode
          have hempty : ∀ z ∈ sized.map Prod.snd, z = some 0 := by
            rw [hsizes]
            exact fun z hz => of_decide_eq_true (List.all_eq_true.mp hall z hz)
          refine ⟨fun tenantId ht => noJob_of_queried h₂ hsmall (hqueried tenantId ht), ?_, ?_, w.2, ?_⟩
          · rw [hfairness, ← henabled]
          · rw [hswitch, ← Bool.eq_false_iff.mpr harmed]
          · rw [← hasked, ← hsized, ← map_const hlisted, ← map_const hempty]
      · exact ⟨h₂, fun _ h => absurd h hone⟩
    · exact ⟨h₂, fun _ h => absurd h hone⟩

/-! ## One run -/

/-- The plan's jobs are the covered tenants'. -/
theorem planned_job {tenants plan : List String} {fuel : ℕ} (hown : Rows Own t) (hrow : Rows ResetRow t)
    (hcovers : ∀ tenantId ∈ tenants, Covered tenant t tenantId)
    (hplan : (exec onPages (jobPlan fuel tenants) t).1 = .ok (some plan)) :
    ∀ jobId ∈ plan, OfCoveredJob tenant t (jobKey jobId) ∧ OfCoveredJob tenant t (jobResultKey jobId) := by
  intro jobId hid
  obtain ⟨tenantId, ht, jobs, hjobs, hid⟩ := (jobPlan_found hplan).1 jobId hid
  obtain ⟨job, hjob, rfl⟩ := List.mem_map.mp hid
  obtain ⟨row, hmem, hread⟩ := (mem_of_mapM hjobs job).mp hjob
  obtain ⟨r, hr, rfl⟩ := List.mem_map.mp hmem
  obtain ⟨id, -, hof, hsame⟩ := queried_job hown hrow hr
  rw [← hsame job hread] at hof
  have hcov := hcovers tenantId ht
  exact ⟨⟨tenantId, job.jobId, hcov, hof, .inl rfl⟩, tenantId, job.jobId, hcov, hof, .inr rfl⟩

theorem deleteItem_safe (h : ResetWorld tenant true t w) {key : Key} (hk : OfCoveredJob tenant t key) :
    Safe (onWorld onPages) (ResetWorld tenant true t) (fun _ w' => ResetWorld tenant true t w' ∧ w'.2 = w.2)
      (tableDeleteItem key) w := by
  refine Safe.calls (S := Dynamo) (o := DynamoOp.deleteItem key) h fun a v hc => ?_
  cases hc
  exact ⟨h.erase hk, rfl⟩

theorem deleteJobs_safe (h : ResetWorld tenant true t w) {ids : List String}
    (hids : ∀ jobId ∈ ids, OfCoveredJob tenant t (jobKey jobId) ∧ OfCoveredJob tenant t (jobResultKey jobId)) :
    Safe (onWorld onPages) (ResetWorld tenant true t) (fun _ w' => ResetWorld tenant true t w' ∧ w'.2 = w.2)
      (deleteJobs ids) w := by
  refine Safe.forM (J := fun w' => ResetWorld tenant true t w' ∧ w'.2 = w.2) (fun jobId hid w' hw => ?_) ⟨h, rfl⟩
  refine Safe.bind ((deleteItem_safe hw.1 (hids jobId hid).1).mono fun _ w₁ h₁ => ?_)
  refine (deleteItem_safe h₁.1 (hids jobId hid).2).mono fun _ w₂ h₂ => ⟨h₂.1, ?_⟩
  rw [h₂.2, h₁.2, hw.2]

theorem putSetting_safe (h : ResetWorld tenant true t w) (e : Entity) (dump : Attrs) {row : Attrs}
    (he : e = .fairness ∨ e = .killSwitch) (hst : Stored e (toDecimalDict dump))
    (hs : serializeDict (toDecimalDict dump) = some row) (hsmall : rowBytes ⟨e.key, row⟩ ≤ 400 * 1024) :
    Safe (onWorld onPages) (ResetWorld tenant true t) (fun _ w' => ResetWorld tenant true t w' ∧ w'.2 = w.2)
      (putRow e.key dump) w := by
  refine Safe.bind (Safe.calls (S := Dynamo) (o := DynamoOp.putItem e.key (toDecimalDict dump) false) h fun a v hc => ?_)
  obtain ⟨row', hs', ⟨-, -, hfalse, -⟩ | ⟨-, rfl, -⟩⟩ := dynamo_put hc
  · cases hfalse
  · cases hs.symm.trans hs'
    exact ⟨h.put he hst hs hsmall, rfl⟩

/-- A call that changes something, where that is allowed. -/
theorem ResetWorld.changes (h : ResetWorld tenant true t w) (o : DemoOp) (a : o.Ans)
    (hevents : ∀ tenantId eventId, o = .deleteEvent tenantId eventId →
      Covered tenant t tenantId ∧ ∃ events, askedEvents tenantId events ∈ w.2 ∧ eventId ∈ events)
    (hbuckets : ∀ bucket, o = .clearBucket bucket →
      bucket ∈ mockoonBuckets ∧ ∃ size, askedSize bucket (some size) ∈ w.2) :
    ResetWorld tenant true t (w.1, w.2 ++ [⟨o, a⟩]) := by
  refine ⟨h.scope.log (fun _ => rfl) (fun tenantId eventId done he => ?_) fun bucket done he => ?_, h.own, h.row, h.small⟩
  · cases he
    exact hevents tenantId eventId rfl
  · cases he
    exact hbuckets bucket rfl

/-- The log has what it had. -/
theorem purgeMemory_safe (h : ResetWorld tenant true t w) {tenants : List String}
    (hcovers : ∀ tenantId ∈ tenants, Covered tenant t tenantId) :
    Safe onServices (ResetWorld tenant true t) (fun _ w' => ResetWorld tenant true t w' ∧ w.2 ⊆ w'.2)
      (tenants.forM purgeMemory) w := by
  refine Safe.forM (J := fun w' => ResetWorld tenant true t w' ∧ w.2 ⊆ w'.2) (fun tenantId ht w' hw => ?_)
    ⟨h, List.Subset.refl _⟩
  refine Safe.bind (Safe.asks (T := Demo) (o := DemoOp.memoryEvents tenantId) hw.1 fun events => ?_)
  have hasked := hw.1.asks (.memoryEvents tenantId) id events
  refine (Safe.forM (J := fun w'' => ResetWorld tenant true t w'' ∧ w'.2 ++ [askedEvents tenantId events] ⊆ w''.2)
    (fun eventId hid w'' hw'' => ?_) ⟨hasked, List.Subset.refl _⟩).mono fun _ w'' h'' => ⟨h''.1, ?_⟩
  · refine Safe.asks (T := Demo) (o := DemoOp.deleteEvent tenantId eventId) hw''.1 fun a => And.intro ?_ ?_
    · refine hw''.1.changes (.deleteEvent tenantId eventId) a (fun other id he => ?_) fun bucket he => by cases he
      cases he
      exact ⟨hcovers tenantId ht, events, hw''.2 (List.mem_append_right _ List.mem_cons_self), hid⟩
    · exact List.Subset.trans hw''.2 (List.subset_append_left _ _)
  · exact List.Subset.trans hw.2 (List.Subset.trans (List.subset_append_left _ _) h''.2)

/-- The buckets that are emptied were seen before. -/
theorem clearBuckets_safe (h : ResetWorld tenant true t w) {sized : List (String × Option ℕ)}
    (hbuckets : sized.map Prod.fst = mockoonBuckets)
    (hseen : ∀ pair ∈ sized, askedSize pair.1 pair.2 ∈ w.2) :
    Safe onServices (ResetWorld tenant true t) (fun _ w' => ResetWorld tenant true t w')
      (clearBuckets (sized.map Prod.snd)) w := by
  have hzip : mockoonBuckets.zip (sized.map Prod.snd) = sized := by
    rw [← hbuckets]
    exact (List.zip_of_prod rfl rfl).symm
  rw [clearBuckets, hzip]
  refine (Safe.forM (J := fun w' => ResetWorld tenant true t w' ∧ w.2 ⊆ w'.2) (fun pair hp w' hw => ?_)
    ⟨h, List.Subset.refl _⟩).mono fun _ w' h' => h'.1
  obtain ⟨bucket, size⟩ := pair
  cases size with
  | none => exact hw
  | some size =>
    refine Safe.asks (T := Demo) (o := DemoOp.clearBucket bucket) hw.1 fun a =>
      And.intro ?_ (List.Subset.trans hw.2 (List.subset_append_left _ _))
    refine hw.1.changes (.clearBucket bucket) a (fun other id he => by cases he) fun other he => ?_
    cases he
    refine ⟨?_, size, hw.2 (hseen _ hp)⟩
    rw [← hbuckets]
    exact List.mem_map_of_mem hp

theorem reset_safe (h : ResetWorld tenant yes t (t, [])) (fuel : ℕ) :
    Safe (amongServices onPages) (ResetWorld tenant yes t)
      (fun code w => ResetWorld tenant yes t w ∧ (SmallRows t → yes = true → code = some 0 →
        ∃ tenants, (exec onPages (coveredTenants tenant) t).1 = .ok tenants ∧ DemoClean tenants w))
      (reset tenant yes fuel) (t, []) := by
  refine Safe.bind (reads_safe (coveredTenants_calls tenant) h fun tenants htenants => ?_)
  have hcovers : ∀ tenantId ∈ tenants, Covered tenant t tenantId :=
    fun tenantId ht => ⟨tenants, congrArg Prod.fst htenants, ht⟩
  refine Safe.bind (reads_safe (jobPlan_calls fuel tenants) h fun plan hplan => ?_)
  refine Safe.bind ((Safe.inr (memoryEvents_safe h tenants)).mono fun _ w₁ hw₁ => ?_)
  obtain ⟨asked, -, -, h₁, rfl⟩ := hw₁
  refine Safe.bind (reads_safe getFairness_calls h₁ fun _ _ => ?_)
  refine Safe.bind (reads_safe getKillSwitch_calls h₁ fun _ _ => ?_)
  refine Safe.bind ((Safe.inr (bucketSize_safe h₁ mockoonBuckets)).mono fun sizes w₂ hw₂ => ?_)
  obtain ⟨sized, hsized, rfl, h₂, hw₂⟩ := hw₂
  cases plan with
  | none => exact ⟨h₂, fun _ _ hc => by cases hc⟩
  | some plan =>
    dsimp only
    split
    · rename_i hyes
      subst hyes
      have hplanned := planned_job h.own h.row hcovers (congrArg Prod.fst hplan)
      refine Safe.bind ((Safe.inl (deleteJobs_safe h₂ hplanned)).mono fun _ w₃ h₃ => ?_)
      refine Safe.bind ((Safe.inr (purgeMemory_safe h₃.1 hcovers)).mono fun _ w₄ h₄ => ?_)
      refine Safe.bind ((Safe.inl (putSetting_safe h₄.1 .fairness (FairnessSetting.modelDump ⟨true⟩) (.inl rfl)
        (.fairness ⟨true⟩) rfl (by decide +kernel))).mono fun _ w₅ h₅ => ?_)
      refine Safe.bind ((Safe.inl (putSetting_safe h₅.1 .killSwitch (KillSwitch.modelDump ⟨false⟩) (.inr rfl)
        (.killSwitch ⟨false⟩) rfl (by decide +kernel))).mono fun _ w₆ h₆ => ?_)
      refine Safe.bind (Safe.inr (Safe.asks (T := Demo) (o := DemoOp.clearRamp) h₆.1 fun a => ?_))
      have h₇ := h₆.1.changes .clearRamp a (fun _ _ he => by cases he) fun _ he => by cases he
      refine Safe.bind ((Safe.inr (clearBuckets_safe h₇ hsized fun pair hp => ?_)).mono fun _ w₈ h₈ => ?_)
      · have hlog : w₃.2 ⊆ w₆.2 := by
          rw [h₆.2, h₅.2]
          exact h₄.2
        refine List.mem_append_left _ (hlog ?_)
        rw [h₃.2, hw₂]
        exact List.mem_append_right _ (List.mem_map_of_mem hp)
      refine (resetExit_safe h₈ tenants fuel).mono fun code w hw => ⟨hw.1, fun hsmall _ hcode => ?_⟩
      exact ⟨tenants, congrArg Prod.fst htenants, hw.2 hsmall hcode⟩
    · rename_i hno
      exact ⟨h₂, fun _ hyes => absurd hyes hno⟩

end

theorem resetWorld_start [Pydantic] (ops : ℕ → Operation) (sched : List (ℕ × Unit)) (tenant : Option String)
    (yes : Bool) : ResetWorld tenant yes (after ops sched) (after ops sched, []) where
  scope := ⟨fun _ h => absurd rfl h, fun _ h => absurd h List.not_mem_nil, fun _ _ _ h => absurd h List.not_mem_nil,
    fun _ _ h => absurd h List.not_mem_nil⟩
  own := (reachable_own ops sched).world
  row := reachable_rows resetRow_invariant resetRow_nil ops sched
  small h := h

/-- Wherever a run stops, and whatever failed: it has touched the rows of the
covered tenants' jobs and the two settings, has deleted only events it was shown
of those tenants, and has emptied only buckets it had seen; a dry run has
changed nothing. -/
theorem reset_scope [Pydantic] (ops : ℕ → Operation) (sched : List (ℕ × Unit)) (tenant : Option String) (yes : Bool)
    (fuel : ℕ) (choices : List (Fate × Answers Demo)) :
    ResetScope tenant yes (after ops sched) (resetRun tenant yes fuel choices (after ops sched)).2 := by
  have hsafe := (reset_safe (resetWorld_start ops sched tenant yes) fuel).lossy (fun _ _ h => h.1) .requestError
  exact ((hsafe.run choices).world fun _ _ h => h.1).scope

/-- A run that exits with 0 leaves what it says: no job of a covered tenant,
the settings restored, and the services last seen empty. -/
theorem reset_certifies [Pydantic] (ops : ℕ → Operation) (sched : List (ℕ × Unit)) (tenant : Option String) (fuel : ℕ)
    (choices : List (Fate × Answers Demo)) (hsmall : SmallRows (after ops sched))
    (hzero : (resetRun tenant true fuel choices (after ops sched)).1 = .returned (some 0)) :
    ∃ tenants, (exec onPages (coveredTenants tenant) (after ops sched)).1 = .ok tenants ∧
      DemoClean tenants (resetRun tenant true fuel choices (after ops sched)).2 := by
  have hsafe := (reset_safe (resetWorld_start ops sched tenant true) fuel).lossy (fun _ _ h => h.1) .requestError
  have hends : Ends _ _ (resetRun tenant true fuel choices (after ops sched)) := hsafe.run choices
  generalize resetRun tenant true fuel choices (after ops sched) = r at hzero hends ⊢
  obtain ⟨out, w⟩ := r
  cases hzero
  exact hends.2 hsmall rfl rfl

/-! ## A reset -/

/-- The code a run exits with, if it does. -/
def exitCode : Outcome Raised (Option ℕ) → Option ℕ
  | .returned code => code
  | .raised _ => none
  | .stopped => none

theorem returned_of_exitCode {out : Outcome Raised (Option ℕ)} {code : ℕ} (h : exitCode out = some code) :
    out = .returned (some code) := by
  cases out with
  | returned r => exact congrArg Outcome.returned h
  | raised e => cases h
  | stopped => cases h

/-- Calls that are all answered: at first there is something to delete, and from
the purge on there is not. -/
def emptied : List (Fate × Answers Demo) :=
  (List.replicate 9 (.answered, fun
    | .memoryEvents _ => ["e-1"]
    | .deleteEvent _ _ => ()
    | .bucketSize _ => some 2
    | .clearBucket _ => ()
    | .clearRamp => ())) ++
  (List.replicate 12 (.answered, fun
    | .memoryEvents _ => []
    | .deleteEvent _ _ => ()
    | .bucketSize _ => some 0
    | .clearBucket _ => ()
    | .clearRamp => ()))

theorem reset_certifies_flooded :
    letI := digits
    ∃ tenants, (exec onPages (coveredTenants (some "acme")) (flooded 1)).1 = .ok tenants ∧
      DemoClean tenants (resetRun (some "acme") true 2 emptied (flooded 1)).2 := by
  let _ := digits
  refine reset_certifies floodPut _ (some "acme") 2 emptied (fun key row hl => ?_) ?_
  · have hall : (flooded 1).entries.all (fun r => rowBytes r ≤ 400 * 1024) = true := by decide +kernel
    exact of_decide_eq_true (List.all_eq_true.mp hall ⟨key, row⟩ (AList.mem_lookup_iff.mp hl))
  · have hcode : exitCode (resetRun (some "acme") true 2 emptied (flooded 1)).1 = some 0 := by decide +kernel
    exact returned_of_exitCode hcode

end ControlPlane
