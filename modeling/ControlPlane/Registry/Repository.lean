import ControlPlane.Registry.Dynamo

/-!
# The repository

The functions of `app/registry/repository.py`, as programs over the table's
calls: the keys of each kind of row, the puts and deletes, the reads that
build a model from a row, the listings, and the two attribute-level updates
(`markJobStarted`, `completeIdempotencyRecord`).
-/

namespace ControlPlane

open Effect Effect.Prog

abbrev Repo (α : Type) := Prog Dynamo Raised α

/-! ## The table's calls -/

def tableGetItem (key : Key) : Repo (Option Attrs) := call (S := Dynamo) (.getItem key) done

def tablePutItem (key : Key) (attrs : Attrs) (ifAbsent : Bool) : Repo Bool :=
  call (S := Dynamo) (.putItem key attrs ifAbsent) done

def tableUpdateItem (key : Key) (set : Attrs) (ifPresent : Bool) : Repo Bool :=
  call (S := Dynamo) (.updateItem key set ifPresent) done

def tableDeleteItem (key : Key) : Repo Unit := call (S := Dynamo) (.deleteItem key) done

def tableQuery (pk : String) : Repo (List Attrs) := call (S := Dynamo) (.query pk) done

def tableQueryIndex (gsi1Pk : String) (limit : ℕ) : Repo (List Attrs) :=
  call (S := Dynamo) (.queryIndex gsi1Pk limit) done

def tableScan (pkPrefix : String) : Repo (List Attrs) := call (S := Dynamo) (.scan pkPrefix) done

/-- Writes a whole row, whatever was there. -/
def putRow (key : Key) (dump : Attrs) : Repo Unit := do
  let _ ← tablePutItem key (toDecimalDict dump) false

/-- Reads a row and builds its model: `Model(**_decode(item)) if item else None`. -/
def getRow {α : Type} (key : Key) (ofItem : Attrs → Except Raised α) : Repo (Option α) := do
  match ← tableGetItem key with
  | none => return none
  | some item => return some (← ofExcept (ofItem item))

/-- `Model(**_decode(item))`. -/
def ofItem {α : Type} (ofKwargs : Attrs → Except Raised α) (item : Attrs) : Except Raised α := do
  ofKwargs (← decode item)

/-! ## The calls of a read -/

section

variable {α : Type} {P : DynamoOp → Prop}

theorem getRow_eq (k : Key) (ofItem : Attrs → Except Raised α) :
    getRow k ofItem = call (S := Dynamo) (.getItem k) fun item =>
      match item with
      | none => done none
      | some item => ofExcept (ofItem item) >>= fun a => done (some a) :=
  congrArg (call _) (funext fun item => by cases item <;> rfl)

theorem calls_getRow {k : Key} (hk : P (.getItem k)) (ofItem : Attrs → Except Raised α) :
    Calls P (getRow k ofItem) := by
  rw [getRow_eq]
  refine ⟨hk, fun item => ?_⟩
  cases item with
  | none => trivial
  | some item => exact (Calls.ofExcept _).bind fun _ => trivial

/-- What reading a row gives, from the table's answer. -/
def readRow (ofItem : Attrs → Except Raised α) : Option Attrs → Except Raised (Option α)
  | none => .ok none
  | some item => (ofItem item).map some

theorem readRow_eq_some {ofItem : Attrs → Except Raised α} {row : Option Attrs} {a : α} :
    readRow ofItem row = .ok (some a) ↔ ∃ item, row = some item ∧ ofItem item = .ok a := by
  cases row with
  | none => simp [readRow]
  | some item => cases h : ofItem item <;> simp [readRow, Except.map, h]

theorem getRow_readRow (k : Key) (ofItem : Attrs → Except Raised α) :
    getRow k ofItem = call (S := Dynamo) (.getItem k) fun item => ofExcept (readRow ofItem item) := by
  rw [getRow_eq]
  refine congrArg (call _) (funext fun item => ?_)
  rcases item with - | item
  · rfl
  · rw [readRow]
    cases h : ofItem item with
    | error e => simp [Prog.ofExcept, Except.map, h]
    | ok a => simp [Prog.ofExcept, Except.map, h]

theorem exec_getRow (k : Key) (ofItem : Attrs → Except Raised α) (t : Table) :
    exec onTable (getRow k ofItem) t = (readRow ofItem (t.lookup k), t) := by
  have hk (f : Option Attrs → Repo (Option α)) :
      exec onTable (call (S := Dynamo) (.getItem k) f) t = exec onTable (f (t.lookup k)) t := rfl
  rw [getRow_readRow]
  exact (hk _).trans (exec_ofExcept _ _ _)

/-- A program that only reads leaves the table as it is, and returns what it
would alone. -/
theorem Safe.reads {I : Table → Prop} {p : Repo α} (hp : Calls (S := Dynamo) (fun o => DynamoOp.writes o = none) p)
    {t : Table} (hI : I t) : Safe onTable I (fun a t' => t' = t ∧ (exec onTable p t).1 = .ok a) p t := by
  induction p with
  | done a => exact ⟨rfl, rfl⟩
  | fail e => exact hI
  | call o k ih =>
    refine ⟨hI, fun c ans t' hc => ?_⟩
    cases dynamo_read hp.1 hc
    refine (ih ans (hp.2 ans)).mono fun a t' h => ⟨h.1, ?_⟩
    have hexec : exec onTable (call o k) t = exec onTable (k ans) t := by
      simp only [exec]
      rw [show onTable o () t = .ok (ans, t) from hc]
    rw [hexec]
    exact h.2

theorem exec_getRow_getD (k : Key) (ofItem : Attrs → Except Raised α) (default : α) (t : Table) :
    exec onTable (do return (← getRow k ofItem).getD default) t =
      ((readRow ofItem (t.lookup k)).map fun a => a.getD default, t) := by
  refine (exec_bind _ _ _ _).trans ?_
  rw [exec_getRow]
  cases readRow ofItem (t.lookup k) with
  | error e => rfl
  | ok a => rfl

end

/-! ## Tenants -/

variable [Pydantic]

def tenantKey (tenantId : String) : Key := ⟨"TENANT#" ++ tenantId, "TENANT#" ++ tenantId⟩

def putTenant (tenant : Tenant) : Repo Unit := putRow (tenantKey tenant.tenantId) tenant.modelDump

def getTenant (tenantId : String) : Repo (Option Tenant) := getRow (tenantKey tenantId) (ofItem Tenant.ofKwargs)

def listTenants : Repo (List Tenant) := do
  ofExcept ((← tableScan "TENANT#").mapM (ofItem Tenant.ofKwargs))

theorem exec_listTenants (t : Table) : (exec onTable listTenants t).1 =
    ((selectPrefix "TENANT#" t.entries).map Sigma.snd).mapM (ofItem Tenant.ofKwargs) :=
  congrArg Prod.fst (exec_ofExcept _ _ _)

def deleteTenant (tenantId : String) : Repo Unit := tableDeleteItem (tenantKey tenantId)

def agentPackageKey (agentId : String) (version : ℤ) : Key := ⟨"AGENT#" ++ agentId, "VERSION#" ++ toString version⟩

def listAgentPackageVersions (agentId : String) : Repo (List AgentPackage) := do
  ofExcept ((← tableQuery ("AGENT#" ++ agentId)).mapM (ofItem AgentPackage.ofKwargs))

theorem exec_listAgentPackageVersions (agentId : String) (t : Table) :
    (exec onTable (listAgentPackageVersions agentId) t).1 =
      ((selectPk ("AGENT#" ++ agentId) t.entries).map Sigma.snd).mapM (ofItem AgentPackage.ofKwargs) :=
  congrArg Prod.fst (exec_ofExcept _ _ _)

def unknownTenant (tenantId : String) : Raised :=
  .valueError ("unknown tenant " ++ pyRepr tenantId ++ " — run `dos tenant add` first")

/-- Makes a published agent available to a tenant. -/
def installAgent (tenantId agentId : String) : Repo Tenant := do
  match ← getTenant tenantId with
  | none => fail (unknownTenant tenantId)
  | some tenant =>
    if (← listAgentPackageVersions agentId).isEmpty then
      fail (.valueError ("unknown agent " ++ pyRepr agentId ++ " — publish it first"))
    else if agentId ∉ tenant.installedAgentIds then
      let tenant := { tenant with installedAgentIds := tenant.installedAgentIds ++ [agentId] }
      putTenant tenant
      return tenant
    else return tenant

def uninstallAgent (tenantId agentId : String) : Repo Tenant := do
  match ← getTenant tenantId with
  | none => fail (unknownTenant tenantId)
  | some tenant =>
    if agentId ∈ tenant.installedAgentIds then
      let tenant := { tenant with installedAgentIds := tenant.installedAgentIds.filter (· ≠ agentId) }
      putTenant tenant
      return tenant
    else return tenant

/-! ## Agent packages -/

def putAgentPackage (package : AgentPackage) : Repo Unit :=
  putRow (agentPackageKey package.agentId package.version) package.modelDump

def getAgentPackage (agentId : String) (version : ℤ) : Repo (Option AgentPackage) :=
  getRow (agentPackageKey agentId version) (ofItem AgentPackage.ofKwargs)

def deleteAgentPackage (agentId : String) (version : ℤ) : Repo Unit :=
  tableDeleteItem (agentPackageKey agentId version)

def listAgentPackages : Repo (List AgentPackage) := do
  ofExcept ((← tableScan "AGENT#").mapM (ofItem AgentPackage.ofKwargs))

/-! ## Jobs -/

def jobKey (jobId : String) : Key := ⟨"JOB#" ++ jobId, "JOB#" ++ jobId⟩

/-- The attributes of a job's row: its fields, and its keys in the index. -/
def jobItem (job : Job) : Attrs :=
  toDecimalDict job.modelDump ++ [("gsi1_pk", .str job.tenantId), ("gsi1_sk", .str job.createdAt)]

def putJob (job : Job) : Repo Unit := do
  let _ ← tablePutItem (jobKey job.jobId) (jobItem job) false

def jobFromItem (item : Attrs) : Except Raised Job :=
  ofItem Job.ofKwargs (item.filter fun kv => kv.1 ∉ ["gsi1_pk", "gsi1_sk"])

def getJob (jobId : String) : Repo (Option Job) := getRow (jobKey jobId) jobFromItem

def listJobsForTenant (tenantId : String) (limit : ℕ) : Repo (List Job) := do
  ofExcept ((← tableQueryIndex tenantId limit).mapM jobFromItem)

def deleteJob (jobId : String) : Repo Unit := tableDeleteItem (jobKey jobId)

/-- Stamps when a job began; a no-op where the job has no row. -/
def markJobStarted (jobId startedAt : String) : Repo Unit := do
  let _ ← tableUpdateItem (jobKey jobId) [("started_at", .str startedAt), ("status", .str "running")] true

/-! ## Job results -/

def jobResultKey (jobId : String) : Key := ⟨"JOB#" ++ jobId, "RESULT"⟩

def putJobResult (result : JobResult) : Repo Unit := putRow (jobResultKey result.jobId) result.modelDump

def getJobResult (jobId : String) : Repo (Option JobResult) :=
  getRow (jobResultKey jobId) (ofItem JobResult.ofKwargs)

def deleteJobResult (jobId : String) : Repo Unit := tableDeleteItem (jobResultKey jobId)

/-! ## Idempotency records -/

def idempotencyTtlDays : ℤ := 30

def idempotencyKey (key : String) : Key := ⟨"IDEMPOTENCY#" ++ key, "IDEMPOTENCY#" ++ key⟩

/-- `int((datetime.fromisoformat(created_at) + timedelta(days=...)).timestamp())`. -/
def expiresAt (createdAt : String) : Except Raised ℤ :=
  match fromisoformat createdAt with
  | some at' => .ok ((at' + idempotencyTtlDays * 24 * 60 * 60 * 1000000).tdiv 1000000)
  | none => .error (.valueError ("Invalid isoformat string: " ++ pyRepr createdAt))

/-- The row of a claim. -/
def claimItem (key createdAt : String) (ttl : ℤ) : Attrs :=
  [("key", .str key), ("status", .str "pending"), ("result", .null), ("created_at", .str createdAt),
    ("ttl", .int ttl)]

/-- Claims a key before a side effect; false if it is already claimed. -/
def claimIdempotencyKey (key createdAt : String) : Repo Bool := do
  let ttl ← ofExcept (expiresAt createdAt)
  tablePutItem (idempotencyKey key) (claimItem key createdAt ttl) true

/-- The attributes a completion sets. -/
def completion (result : Attrs) : Attrs :=
  [("status", .str "completed"), ("result", toDecimal (.dict result))]

def completeIdempotencyRecord (key : String) (result : Attrs) : Repo Unit := do
  let _ ← tableUpdateItem (idempotencyKey key) (completion result) false

def getIdempotencyRecord (key : String) : Repo (Option IdempotencyRecord) :=
  getRow (idempotencyKey key) (ofItem IdempotencyRecord.ofKwargs)

def deleteIdempotencyRecord (key : String) : Repo Unit := tableDeleteItem (idempotencyKey key)

/-! ## Settings -/

def fairnessKey : Key := ⟨"SETTINGS#fairness", "SETTINGS#fairness"⟩

def getFairnessSetting : Repo FairnessSetting := do
  return (← getRow fairnessKey (ofItem FairnessSetting.ofKwargs)).getD {}

def putFairnessSetting (setting : FairnessSetting) : Repo Unit := putRow fairnessKey setting.modelDump

def killSwitchKey : Key := ⟨"SETTINGS#kill_switch", "SETTINGS#kill_switch"⟩

def getKillSwitch : Repo KillSwitch := do
  return (← getRow killSwitchKey (ofItem KillSwitch.ofKwargs)).getD {}

def putKillSwitch (setting : KillSwitch) : Repo Unit := putRow killSwitchKey setting.modelDump

end ControlPlane
