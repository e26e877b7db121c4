import Mathlib
import ControlPlane.Lib.Pool
import ControlPlane.Registry.ReadBack

/-!
# Entities, operations and listings

The repository's rows by what they are (`Entity`): each entity's key, which
no other has (`Entity.key_injective`), the attributes its model requires, and
how it is read. The operations that write (`Operation`), each about one
entity, any of which may run in parallel (`Reachable`). The listings, each by
the rows it selects (`Listing.select`).
-/

namespace ControlPlane

open Effect Effect.Prog

variable [Pydantic]

/-! ## Entities -/

inductive Entity
  | tenant (tenantId : String)
  | agentPackage (agentId : String) (version : ℤ)
  | job (jobId : String)
  | jobResult (jobId : String)
  | idempotencyRecord (key : String)
  | fairness
  | killSwitch
  deriving DecidableEq

namespace Entity

def key : Entity → Key
  | tenant tenantId => tenantKey tenantId
  | agentPackage agentId version => agentPackageKey agentId version
  | job jobId => jobKey jobId
  | jobResult jobId => jobResultKey jobId
  | idempotencyRecord key => idempotencyKey key
  | fairness => fairnessKey
  | killSwitch => killSwitchKey

/-- The attributes without which the entity's model is not built. -/
def required : Entity → List String
  | tenant _ => Tenant.required
  | agentPackage _ _ => AgentPackage.required
  | job _ => Job.required
  | jobResult _ => JobResult.required
  | idempotencyRecord _ => IdempotencyRecord.required
  | fairness => []
  | killSwitch => []

/-- What reading the entity gives. -/
def Model : Entity → Type
  | tenant _ => Option Tenant
  | agentPackage _ _ => Option AgentPackage
  | job _ => Option Job
  | jobResult _ => Option JobResult
  | idempotencyRecord _ => Option IdempotencyRecord
  | fairness => FairnessSetting
  | killSwitch => KillSwitch

/-- The repository's `get_*` of the entity. -/
def get : (e : Entity) → Repo e.Model
  | tenant tenantId => getTenant tenantId
  | agentPackage agentId version => getAgentPackage agentId version
  | job jobId => getJob jobId
  | jobResult jobId => getJobResult jobId
  | idempotencyRecord key => getIdempotencyRecord key
  | fairness => getFairnessSetting
  | killSwitch => getKillSwitch

omit [Pydantic] in
/-- No two entities share a key. -/
theorem key_injective : Function.Injective key := by
  intro e f h
  have hp : e.key.pk.toList = f.key.pk.toList := congrArg (fun k => k.pk.toList) h
  have hs : e.key.sk.toList = f.key.sk.toList := congrArg (fun k => k.sk.toList) h
  -- two kinds differ in a letter of their prefixes
  cases e <;> cases f <;>
    simp [key, tenantKey, agentPackageKey, jobKey, jobResultKey, idempotencyKey, fairnessKey, killSwitchKey,
      String.toList_append] at hp hs ⊢
  case tenant.tenant => exact String.toList_inj.mp hp
  case agentPackage.agentPackage => exact ⟨String.toList_inj.mp hp, Int.repr_inj.mp (String.toList_inj.mp hs)⟩
  case job.job => exact String.toList_inj.mp hp
  case jobResult.jobResult => exact String.toList_inj.mp hp
  case idempotencyRecord.idempotencyRecord => exact String.toList_inj.mp hp

/-- How a read builds what it gives from the row, if there is one. -/
def ofRow : (e : Entity) → Option Attrs → Except Raised e.Model
  | tenant _, row => readRow (ofItem Tenant.ofKwargs) row
  | agentPackage _ _, row => readRow (ofItem AgentPackage.ofKwargs) row
  | job _, row => readRow jobFromItem row
  | jobResult _, row => readRow (ofItem JobResult.ofKwargs) row
  | idempotencyRecord _, row => readRow (ofItem IdempotencyRecord.ofKwargs) row
  | fairness, row => (readRow (ofItem FairnessSetting.ofKwargs) row).map fun setting => setting.getD {}
  | killSwitch, row => (readRow (ofItem KillSwitch.ofKwargs) row).map fun setting => setting.getD {}

/-- Reading an entity depends on its row alone. -/
theorem get_exec (e : Entity) (t : Table) : exec onTable e.get t = (e.ofRow (t.lookup e.key), t) := by
  cases e with
  | tenant tenantId => exact exec_getRow _ _ _
  | agentPackage agentId version => exact exec_getRow _ _ _
  | job jobId => exact exec_getRow _ _ _
  | jobResult jobId => exact exec_getRow _ _ _
  | idempotencyRecord key => exact exec_getRow _ _ _
  | fairness => exact exec_getRow_getD _ _ _ _
  | killSwitch => exact exec_getRow_getD _ _ _ _

end Entity

omit [Pydantic] in
theorem key_ne {e f : Entity} (h : e ≠ f) : e.key ≠ f.key := fun hk => h (Entity.key_injective hk)

/-! ## Operations -/

/-- What acts on the table: the repository's functions about one entity, and
DynamoDB's expiry of an idempotency row (`expire`). -/
inductive Operation
  | read (e : Entity)
  | putTenant (tenant : Tenant)
  | deleteTenant (tenantId : String)
  | installAgent (tenantId agentId : String)
  | uninstallAgent (tenantId agentId : String)
  | putAgentPackage (package : AgentPackage)
  | deleteAgentPackage (agentId : String) (version : ℤ)
  | putJob (job : Job)
  | deleteJob (jobId : String)
  | markJobStarted (jobId startedAt : String)
  | putJobResult (result : JobResult)
  | deleteJobResult (jobId : String)
  | claimIdempotencyKey (key createdAt : String)
  | completeIdempotencyRecord (key : String) (result : Attrs)
  | deleteIdempotencyRecord (key : String)
  | expire (key : String)
  | putFairnessSetting (setting : FairnessSetting)
  | putKillSwitch (setting : KillSwitch)

namespace Operation

/-- The entity it is about. -/
def entity : Operation → Entity
  | read e => e
  | putTenant tenant => .tenant tenant.tenantId
  | deleteTenant tenantId => .tenant tenantId
  | installAgent tenantId _ => .tenant tenantId
  | uninstallAgent tenantId _ => .tenant tenantId
  | putAgentPackage package => .agentPackage package.agentId package.version
  | deleteAgentPackage agentId version => .agentPackage agentId version
  | putJob job => .job job.jobId
  | deleteJob jobId => .job jobId
  | markJobStarted jobId _ => .job jobId
  | putJobResult result => .jobResult result.jobId
  | deleteJobResult jobId => .jobResult jobId
  | claimIdempotencyKey key _ => .idempotencyRecord key
  | completeIdempotencyRecord key _ => .idempotencyRecord key
  | deleteIdempotencyRecord key => .idempotencyRecord key
  | expire key => .idempotencyRecord key
  | putFairnessSetting _ => .fairness
  | putKillSwitch _ => .killSwitch

def prog : Operation → Repo Unit
  | read e => do let _ ← e.get
  | putTenant tenant => ControlPlane.putTenant tenant
  | deleteTenant tenantId => ControlPlane.deleteTenant tenantId
  | installAgent tenantId agentId => do let _ ← ControlPlane.installAgent tenantId agentId
  | uninstallAgent tenantId agentId => do let _ ← ControlPlane.uninstallAgent tenantId agentId
  | putAgentPackage package => ControlPlane.putAgentPackage package
  | deleteAgentPackage agentId version => ControlPlane.deleteAgentPackage agentId version
  | putJob job => ControlPlane.putJob job
  | deleteJob jobId => ControlPlane.deleteJob jobId
  | markJobStarted jobId startedAt => ControlPlane.markJobStarted jobId startedAt
  | putJobResult result => ControlPlane.putJobResult result
  | deleteJobResult jobId => ControlPlane.deleteJobResult jobId
  | claimIdempotencyKey key createdAt => do let _ ← ControlPlane.claimIdempotencyKey key createdAt
  | completeIdempotencyRecord key result => ControlPlane.completeIdempotencyRecord key result
  | deleteIdempotencyRecord key => ControlPlane.deleteIdempotencyRecord key
  | expire key => tableDeleteItem (idempotencyKey key)
  | putFairnessSetting setting => ControlPlane.putFairnessSetting setting
  | putKillSwitch setting => ControlPlane.putKillSwitch setting

end Operation

/-- The operations, one a thread, about to start on an empty table. -/
def start (ops : ℕ → Operation) : Pool Dynamo Raised Unit Table ℕ := ⟨∅, fun i => (ops i).prog⟩

/-- The table after some of the operations' calls, in the order of a schedule
of threads. An operation whose calls are not all in it is still under way, or
its process is gone. -/
def after (ops : ℕ → Operation) (sched : List (ℕ × Unit)) : Table :=
  ((start ops).run (fun _ => onTable) sched).world

theorem after_snoc (ops : ℕ → Operation) (sched : List (ℕ × Unit)) (x : ℕ × Unit) :
    after ops (sched ++ [x]) = (((start ops).run (fun _ => onTable) sched).step (fun _ => onTable) x).world := by
  rw [after, Pool.run, List.foldl_append]
  rfl

/-! ## Listings -/

inductive Listing
  | tenants
  | agentPackages
  | agentPackageVersions (agentId : String)
  | jobsForTenant (tenantId : String) (limit : ℕ)

namespace Listing

def Model : Listing → Type
  | tenants => Tenant
  | agentPackages => AgentPackage
  | agentPackageVersions _ => AgentPackage
  | jobsForTenant _ _ => Job

/-- The repository's `list_*`. -/
def list : (l : Listing) → Repo (List l.Model)
  | tenants => listTenants
  | agentPackages => listAgentPackages
  | agentPackageVersions agentId => listAgentPackageVersions agentId
  | jobsForTenant tenantId limit => listJobsForTenant tenantId limit

/-- How it builds its model from a row. -/
def ofRow : (l : Listing) → Attrs → Except Raised l.Model
  | tenants => ofItem Tenant.ofKwargs
  | agentPackages => ofItem AgentPackage.ofKwargs
  | agentPackageVersions _ => ofItem AgentPackage.ofKwargs
  | jobsForTenant _ _ => jobFromItem

/-- The rows it selects, before any limit. -/
def select : Listing → Table → List Row
  | tenants, t => selectPrefix "TENANT#" t.entries
  | agentPackages, t => selectPrefix "AGENT#" t.entries
  | agentPackageVersions agentId, t => selectPk ("AGENT#" ++ agentId) t.entries
  | jobsForTenant tenantId _, t => selectIndex tenantId t.entries

/-- The rows its limit leaves of them. -/
def limited : Listing → List Row → List Row
  | jobsForTenant _ limit, rows => rows.take limit
  | _, rows => rows

/-- The entities it is a listing of. -/
def lists : Listing → Entity → Prop
  | tenants, .tenant _ => True
  | agentPackages, .agentPackage _ _ => True
  | agentPackageVersions agentId, .agentPackage id _ => id = agentId
  | jobsForTenant _ _, .job _ => True
  | _, _ => False

/-- A row it selects, by the row's key and attributes. -/
def Selects : Listing → Row → Prop
  | tenants, r => "TENANT#".toList <+: r.1.pk.toList
  | agentPackages, r => "AGENT#".toList <+: r.1.pk.toList
  | agentPackageVersions agentId, r => r.1.pk = "AGENT#" ++ agentId
  | jobsForTenant tenantId _, r => ∃ sk, indexKey r.2 = some (tenantId, sk)

omit [Pydantic] in
theorem mem_select {l : Listing} {t : Table} {r : Row} : r ∈ l.select t ↔ r ∈ t.entries ∧ l.Selects r := by
  cases l with
  | tenants => simp [select, Selects, selectPrefix]
  | agentPackages => simp [select, Selects, selectPrefix]
  | agentPackageVersions agentId => simp [select, Selects, selectPk]
  | jobsForTenant tenantId limit => simp [select, Selects, selectIndex, Option.any_eq_true]

omit [Pydantic] in
theorem mem_of_limited {l : Listing} {t : Table} {r : Row} (hr : r ∈ l.limited (l.select t)) : r ∈ l.select t := by
  cases l with
  | jobsForTenant tenantId limit => exact List.mem_of_mem_take hr
  | _ => exact hr

/-- A listing builds its models from the rows it selects. -/
theorem list_exec (l : Listing) (t : Table) :
    exec onTable l.list t = (((l.limited (l.select t)).map Sigma.snd).mapM l.ofRow, t) := by
  cases l with
  | tenants => exact exec_ofExcept _ _ _
  | agentPackages => exact exec_ofExcept _ _ _
  | agentPackageVersions agentId => exact exec_ofExcept _ _ _
  | jobsForTenant tenantId limit => exact exec_ofExcept _ _ _

end Listing

/-! ## What the operations call -/

/-- The dicts put as an entity's row. -/
inductive Stored : Entity → Attrs → Prop
  | tenant (tenant : Tenant) : Stored (.tenant tenant.tenantId) (toDecimalDict tenant.modelDump)
  | agentPackage (package : AgentPackage) :
    Stored (.agentPackage package.agentId package.version) (toDecimalDict package.modelDump)
  | job (job : Job) : Stored (.job job.jobId) (jobItem job)
  | jobResult (result : JobResult) : Stored (.jobResult result.jobId) (toDecimalDict result.modelDump)
  | claim (key createdAt : String) (ttl : ℤ) : Stored (.idempotencyRecord key) (claimItem key createdAt ttl)
  | fairness (setting : FairnessSetting) : Stored .fairness (toDecimalDict setting.modelDump)
  | killSwitch (setting : KillSwitch) : Stored .killSwitch (toDecimalDict setting.modelDump)

/-- The attributes set in an entity's row. -/
inductive Updated : Entity → Attrs → Prop
  | started (jobId startedAt : String) :
    Updated (.job jobId) [("started_at", .str startedAt), ("status", .str "running")]
  | completed (key : String) (result : Attrs) : Updated (.idempotencyRecord key) (completion result)

/-- A call that, if it writes, writes the entity's row. -/
def Acts (e : Entity) : DynamoOp → Prop
  | .putItem key attrs _ => key = e.key ∧ Stored e attrs
  | .updateItem key set _ => key = e.key ∧ Updated e set
  | .deleteItem key => key = e.key
  | _ => True

theorem Entity.calls_get (e : Entity) {f : Entity} : Calls (Acts f) e.get := by
  cases e with
  | fairness => exact (calls_getRow trivial _).bind fun _ => trivial
  | killSwitch => exact (calls_getRow trivial _).bind fun _ => trivial
  | _ => exact calls_getRow trivial _

omit [Pydantic] in
theorem calls_putTenant (tenant : Tenant) : Calls (Acts (.tenant tenant.tenantId)) (putTenant tenant) :=
  ⟨⟨rfl, .tenant tenant⟩, fun _ => trivial⟩

theorem calls_listAgentPackageVersions {e : Entity} (agentId : String) :
    Calls (Acts e) (listAgentPackageVersions agentId) :=
  Calls.bind ⟨trivial, fun _ => trivial⟩ fun _ => Calls.ofExcept _

/-- All operations but an install and an uninstall act on their entity by
their arguments alone. -/
theorem calls_prog (op : Operation) : Calls (Acts op.entity) op.prog ∨
    ∃ tenantId agentId, op = .installAgent tenantId agentId ∨ op = .uninstallAgent tenantId agentId := by
  cases op with
  | installAgent tenantId agentId => exact .inr ⟨tenantId, agentId, .inl rfl⟩
  | uninstallAgent tenantId agentId => exact .inr ⟨tenantId, agentId, .inr rfl⟩
  | read e => exact .inl (e.calls_get.bind fun _ => trivial)
  | putTenant tenant => exact .inl (calls_putTenant tenant)
  | putAgentPackage package => exact .inl ⟨⟨rfl, .agentPackage package⟩, fun _ => trivial⟩
  | putJob job => exact .inl ⟨⟨rfl, .job job⟩, fun _ => trivial⟩
  | markJobStarted jobId startedAt => exact .inl ⟨⟨rfl, .started jobId startedAt⟩, fun _ => trivial⟩
  | putJobResult result => exact .inl ⟨⟨rfl, .jobResult result⟩, fun _ => trivial⟩
  | claimIdempotencyKey key createdAt =>
    refine .inl (Calls.bind (Calls.bind (Calls.ofExcept _) fun ttl => ?_) fun _ => trivial)
    exact ⟨⟨rfl, .claim key createdAt ttl⟩, fun _ => trivial⟩
  | completeIdempotencyRecord key result => exact .inl ⟨⟨rfl, .completed key result⟩, fun _ => trivial⟩
  | putFairnessSetting setting => exact .inl ⟨⟨rfl, .fairness setting⟩, fun _ => trivial⟩
  | putKillSwitch setting => exact .inl ⟨⟨rfl, .killSwitch setting⟩, fun _ => trivial⟩
  | deleteTenant tenantId => exact .inl ⟨rfl, fun _ => trivial⟩
  | deleteAgentPackage agentId version => exact .inl ⟨rfl, fun _ => trivial⟩
  | deleteJob jobId => exact .inl ⟨rfl, fun _ => trivial⟩
  | deleteJobResult jobId => exact .inl ⟨rfl, fun _ => trivial⟩
  | deleteIdempotencyRecord key => exact .inl ⟨rfl, fun _ => trivial⟩
  | expire key => exact .inl ⟨rfl, fun _ => trivial⟩

/-! ## What holds of every row -/

/-- Every row is at the key of an entity, and `P` of the two. -/
def Rows (P : Entity → Attrs → Prop) (t : Table) : Prop :=
  ∀ key row, t.lookup key = some row → ∃ e : Entity, e.key = key ∧ P e row

/-- `P` holds of what is put as a row, and stays where attributes are set. -/
structure RowInvariant (P : Entity → Attrs → Prop) : Prop where
  put : ∀ {e attrs row}, Stored e attrs → serializeDict attrs = some row → P e row
  set : ∀ {e set new old}, Updated e set → serializeDict set = some new → P e old → P e (setAttrs new old)

/-- The call creates no row by setting attributes. -/
def Sets : DynamoOp → Table → Prop
  | .updateItem key _ ifPresent, t => ifPresent = false → (t.lookup key).isSome
  | _, _ => True

section

omit [Pydantic]

variable {P : Entity → Attrs → Prop} {t t' : Table}

theorem Rows.lookup (h : Rows P t) {e : Entity} {row : Attrs} (hr : t.lookup e.key = some row) : P e row := by
  obtain ⟨f, hf, hp⟩ := h _ _ hr
  rw [← Entity.key_injective hf]
  exact hp

theorem Rows.empty : Rows P ∅ := fun _ _ h => nomatch h

theorem Rows.insert (h : Rows P t) {e : Entity} {row : Attrs} (hr : P e row) : Rows P (t.insert e.key row) := by
  intro key row' hl
  by_cases hk : key = e.key
  · rw [hk, AList.lookup_insert] at hl
    cases hl
    exact ⟨e, hk.symm, hr⟩
  · rw [AList.lookup_insert_ne hk] at hl
    exact h key row' hl

theorem Rows.erase (h : Rows P t) (key : Key) : Rows P (t.erase key) := by
  intro k row hl
  by_cases hk : k = key
  · rw [hk, AList.lookup_erase] at hl
    cases hl
  · rw [AList.lookup_erase_ne hk] at hl
    exact h k row hl

/-- A call on an entity keeps `P`, where it creates no row by setting
attributes, or a row without attributes meets `P`. -/
theorem acts_rows (hP : RowInvariant P) {e : Entity} {o : DynamoOp} {ans : o.Ans} (ha : Acts e o)
    (ho : Sets o t ∨ P e []) (h : Rows P t) (hc : onTable o () t = .ok (ans, t')) : Rows P t' := by
  cases o with
  | putItem key attrs ifAbsent =>
    obtain ⟨rfl, hst⟩ := ha
    obtain ⟨row, hs, ⟨-, rfl, -⟩ | ⟨-, rfl, -⟩⟩ := dynamo_put hc
    · exact h
    · exact h.insert (hP.put hst hs)
  | updateItem key set ifPresent =>
    obtain ⟨rfl, hu⟩ := ha
    obtain ⟨new, hs, ⟨-, rfl, -⟩ | ⟨-, rfl, hpres⟩⟩ := dynamo_update hc
    · exact h
    · refine h.insert (hP.set hu hs ?_)
      cases hl : t.lookup e.key with
      | some old => exact h.lookup hl
      | none =>
        refine ho.resolve_left fun hset => ?_
        cases ifPresent with
        | true => simp [hl] at hpres
        | false => simp [Sets, hl] at hset
  | deleteItem key => cases hc; exact h.erase key
  | getItem key => cases hc; exact h
  | query pk => cases hc; exact h
  | queryIndex pk limit => cases hc; exact h
  | scan pre => cases hc; exact h

end

end ControlPlane
