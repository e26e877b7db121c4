import ControlPlane.Registry.Validate
import ControlPlane.Registry.Scans
import ControlPlane.Sessions

/-!
# The command line

The commands of `cli/main.py` that write the registry, as programs over the
table, the clock and Temporal: `tenant add`, `install` and `uninstall`,
`agent publish`, `test`, `register-hosted` and `unregister`. Each runs where
it is run (`Workplace`): on the packages of a disk, under the settings there. A
`get_item` reads the current table.

`no_dangling_install`: in every state of any sequence of commands, each of
which may stop after any of its calls, whatever a tenant has installed has a
published version.
-/

namespace ControlPlane

open Effect Effect.Prog

/-! ## Commands -/

/-- What ends a command. -/
inductive CliError
  /-- `_fail(message)`. -/
  | failed (message : String)
  /-- `_fail(str(e))`, of a ValueError. -/
  | caught (e : Raised)
  /-- The confirmation was refused. -/
  | aborted
  | load (e : LoadError)
  | raised (e : Raised)

abbrev Cli (α : Type) := Prog ClientSig CliError α

def client {α : Type} (p : Client α) : Cli α := p.mapError .raised

def table {α : Type} (p : Repo α) : Cli α := client (repo p)

/-- `except ValueError as e: _fail(str(e))`; a ValidationError is one too. -/
def catchValueError : Raised → CliError
  | .valueError message => .caught (.valueError message)
  | .validationError fields => .caught (.validationError fields)
  | e => .raised e

def catching {α : Type} (p : Repo α) : Cli α := Prog.mapError catchValueError (repo p : Client α)

/-- `except` none. -/
def orRaise {α ε : Type} (f : ε → CliError) (r : Except ε α) : Cli α := ofExcept (r.mapError f)

/-- Where a command is run. -/
structure Workplace where
  disk : Disk
  /-- AGENTCORE_RUNTIME_ENDPOINT. -/
  runtimeEndpoint : Option String
  taskQueue : String

variable [Pydantic] [Yaml]

def tenantAdd (tenantId name : String) (tier : TenantTier) (priorityKey : ℤ) (fairnessWeight : PyFloat)
    (memoryNamespace s3Prefix : String) : Cli Unit :=
  table (putTenant {
    tenantId
    name
    tier
    priorityKey
    fairnessWeight
    memoryNamespace := if memoryNamespace = "" then tenantId else memoryNamespace
    s3Prefix := if s3Prefix = "" then "tenants/" ++ tenantId ++ "/" else s3Prefix })

def tenantInstall (tenantId agentId : String) : Cli Unit := do
  let _ ← catching (installAgent tenantId agentId)

def tenantUninstall (tenantId agentId : String) : Cli Unit := do
  let _ ← catching (uninstallAgent tenantId agentId)

def notValid (agentId : String) : CliError :=
  .failed (agentId ++ " is not valid — run `dos agent validate " ++ agentId ++ "` first")

def agentPublish (place : Workplace) (agentId : String) : Cli Unit := do
  let problems ← orRaise .load (validate place.disk agentId)
  if problems ≠ [] then fail (notValid agentId)
  else
    let (manifest, sop) ← orRaise .load (loadManifest place.disk agentId)
    let package ← orRaise .raised (toPackage place.runtimeEndpoint manifest sop)
    table (putAgentPackage package)

/-- Publishes, and starts one job; its result is then awaited and printed. -/
def agentTest (place : Workplace) (agentId prompt tenant hex : String) : Cli Unit := do
  let problems ← orRaise .load (validate place.disk agentId)
  if problems ≠ [] then fail (notValid agentId)
  else
    let _ ← catching (resolvePriority tenant)
    let (manifest, sop) ← orRaise .load (loadManifest place.disk agentId)
    let package ← orRaise .raised (toPackage place.runtimeEndpoint manifest sop)
    table (putAgentPackage package)
    let _ ← client (startSession place.taskQueue manifest.id tenant prompt hex)

def arnPrefix : String := "arn:aws:bedrock-agentcore:"

omit [Pydantic] [Yaml] in
/-- The row of an agent registered by its ARN. -/
def hostedPackage (agentId name runtimeArn : String) (version : ℤ) (description : String) : AgentPackage where
  agentId := agentId
  version := version
  name := name
  tier := .hosted
  model := "bedrock-claude"
  systemPrompt :=
    if description = "" then name ++ " — hosted on AgentCore Runtime, ARN " ++ runtimeArn else description
  runtimeArn := some runtimeArn

def registerHosted (agentId name runtimeArn : String) (version : ℤ) (description : String) : Cli Unit :=
  if arnPrefix.toList.isPrefixOf runtimeArn.toList then
    table (putAgentPackage (hostedPackage agentId name runtimeArn version description))
  else
    fail (.failed (pyRepr runtimeArn ++ " is not an AgentCore Runtime ARN " ++
      "(expected arn:aws:bedrock-agentcore:<region>:<account>:runtime/...)"))

/-- Removes every version of an agent, and its installs first. `confirmed` is
`--yes`, or the answer at the prompt. -/
def agentUnregister (agentId : String) (confirmed : Bool) : Cli Unit := do
  let versions ← table (listAgentPackageVersions agentId)
  if versions.isEmpty then fail (.failed ("agent " ++ pyRepr agentId ++ " is not in the registry"))
  else
    let tenants ← table listTenants
    let installedOn := (tenants.filter fun t => agentId ∈ t.installedAgentIds).map fun t => t.tenantId
    if !confirmed then fail .aborted
    else
      installedOn.forM fun tenantId => do
        let _ ← table (uninstallAgent tenantId agentId)
      versions.forM fun package => table (deleteAgentPackage agentId package.version)

inductive Command
  | tenantAdd (tenantId name : String) (tier : TenantTier) (priorityKey : ℤ) (fairnessWeight : PyFloat)
    (memoryNamespace s3Prefix : String)
  | install (tenantId agentId : String)
  | uninstall (tenantId agentId : String)
  | publish (place : Workplace) (agentId : String)
  | test (place : Workplace) (agentId prompt tenant hex : String)
  | registerHosted (agentId name runtimeArn : String) (version : ℤ) (description : String)
  | unregister (agentId : String) (confirmed : Bool)

def Command.prog : Command → Cli Unit
  | tenantAdd tenantId name tier priorityKey fairnessWeight memoryNamespace s3Prefix =>
    ControlPlane.tenantAdd tenantId name tier priorityKey fairnessWeight memoryNamespace s3Prefix
  | install tenantId agentId => tenantInstall tenantId agentId
  | uninstall tenantId agentId => tenantUninstall tenantId agentId
  | publish place agentId => agentPublish place agentId
  | test place agentId prompt tenant hex => agentTest place agentId prompt tenant hex
  | registerHosted agentId name runtimeArn version description =>
    ControlPlane.registerHosted agentId name runtimeArn version description
  | unregister agentId confirmed => agentUnregister agentId confirmed

/-! ## Runs -/

/-- Calls that see the whole table as it is; the clock shows the instant
chosen. -/
def commandCalls : Handler ClientSig CliError String Table :=
  ((onTable.choosing fun _ => ()).sum
    (Handler.sum (fun _ instant t => .ok (instant, t)) fun _ _ t => .ok ((), t))).mapError .raised

/-- The table after some commands, each of which makes as many of its calls as
it has instants. -/
def afterCommands (commands : List (Command × List String)) : Table :=
  runs commandCalls ∅ (commands.map fun c => (c.1.prog, c.2))

section

omit [Pydantic] [Yaml]

variable {α : Type} {I : Table → Prop} {Q : α → Table → Prop} {t : Table}

theorem table_safe {p : Repo α} (h : Safe onTable I Q p t) : Safe commandCalls I Q (table p) t :=
  Safe.mapError (Safe.inl h.choosing)

theorem catching_safe {p : Repo α} (h : Safe onTable I Q p t) : Safe commandCalls I Q (catching p) t :=
  Safe.mapError (Safe.inl h.choosing)

theorem orRaise_safe {ε : Type} {f : ε → CliError} {r : Except ε α} (hI : I t) (hQ : ∀ a, r = .ok a → Q a t) :
    Safe commandCalls I Q (orRaise f r) t := by
  show Safe commandCalls I Q (ofExcept (r.mapError f)) t
  refine Safe.ofExcept hI fun a ha => hQ a ?_
  cases r with
  | error e => cases ha
  | ok b => cases ha; rfl

end

/-! ## Installs and versions -/

/-- A tenant's row, as a tenant is put. -/
def TenantPut (e : Entity) (row : Attrs) : Prop :=
  ∀ tenantId, e = .tenant tenantId → ∃ tenant : Tenant, tenant.tenantId = tenantId ∧
    serializeDict (toDecimalDict tenant.modelDump) = some row

omit [Pydantic] [Yaml] in
theorem tenantPut_invariant : RowInvariant TenantPut where
  put := by
    intro e attrs row hst hs tenantId he
    subst he
    cases hst with
    | tenant tenant => exact ⟨tenant, rfl, hs⟩
  set := by
    intro e set new old hu _ _ tenantId he
    subst he
    cases hu

/-- The row has the agent among its installed ids. -/
def Installed (t : Table) (tenantId agentId : String) : Prop :=
  ∃ row ids, t.lookup (tenantKey tenantId) = some row ∧ row.lookup "installed_agent_ids" = some (.list ids) ∧
    .str agentId ∈ ids

/-- The agent has a version. -/
def HasVersion (t : Table) (agentId : String) : Prop :=
  ∃ version, (t.lookup (agentPackageKey agentId version)).isSome

/-- What every state of the commands keeps. -/
structure Registry (t : Table) : Prop where
  own : Rows Own t
  tenants : Rows TenantPut t
  versions : ∀ tenantId agentId, Installed t tenantId agentId → HasVersion t agentId

section

omit [Pydantic] [Yaml]

variable {t t' : Table} {tenantId agentId : String} {tenant : Tenant} {row : Attrs}

theorem installedIds_put (hs : serializeDict (toDecimalDict tenant.modelDump) = some row) :
    row.lookup "installed_agent_ids" = some (.list (tenant.installedAgentIds.map .str)) := by
  obtain ⟨p, w, -, -, rfl⟩ := serialize_tenant.mp hs
  rfl

theorem installed_put (hl : t.lookup (tenantKey tenantId) = some row)
    (hs : serializeDict (toDecimalDict tenant.modelDump) = some row) :
    Installed t tenantId agentId ↔ agentId ∈ tenant.installedAgentIds := by
  constructor
  · rintro ⟨row', ids, hl', hids, hin⟩
    rw [hl] at hl'
    cases hl'
    rw [installedIds_put hs] at hids
    cases hids
    obtain ⟨id, hid, he⟩ := List.mem_map.mp hin
    cases he
    exact hid
  · exact fun h => ⟨row, _, hl, installedIds_put hs, List.mem_map.mpr ⟨agentId, h, rfl⟩⟩

theorem installed_congr (h : t'.lookup (tenantKey tenantId) = t.lookup (tenantKey tenantId)) :
    Installed t' tenantId agentId ↔ Installed t tenantId agentId := by
  unfold Installed
  rw [h]

/-- Putting a tenant whose installs have versions. -/
theorem Registry.putTenant (h : Registry t) (hs : serializeDict (toDecimalDict tenant.modelDump) = some row)
    (hv : ∀ agentId ∈ tenant.installedAgentIds, HasVersion t agentId) :
    Registry (t.insert (tenantKey tenant.tenantId) row) := by
  have hversion {agentId : String} (hv : HasVersion t agentId) :
      HasVersion (t.insert (tenantKey tenant.tenantId) row) agentId := by
    obtain ⟨version, hs⟩ := hv
    have hne : agentPackageKey agentId version ≠ tenantKey tenant.tenantId :=
      key_ne (e := .agentPackage agentId version) (f := .tenant tenant.tenantId) nofun
    exact ⟨version, by rw [AList.lookup_insert_ne hne]; exact hs⟩
  refine ⟨h.own.insert (e := .tenant tenant.tenantId) (own_stored (.tenant tenant) hs),
    h.tenants.insert (e := .tenant tenant.tenantId) (tenantPut_invariant.put (.tenant tenant) hs),
    fun tenantId agentId hi => hversion ?_⟩
  by_cases ht : tenantId = tenant.tenantId
  · rw [ht, installed_put (AList.lookup_insert _) hs] at hi
    exact hv agentId hi
  · refine h.versions tenantId agentId ((installed_congr ?_).mp hi)
    exact AList.lookup_insert_ne (key_ne (e := .tenant tenantId) (f := .tenant tenant.tenantId) (by simpa using ht))

/-- Putting anything else. -/
theorem Registry.put {e : Entity} {attrs : Attrs} (h : Registry t) (he : ∀ tenantId, e ≠ .tenant tenantId)
    (hst : Stored e attrs) (hs : serializeDict attrs = some row) : Registry (t.insert e.key row) := by
  refine ⟨h.own.insert (own_stored hst hs), h.tenants.insert (tenantPut_invariant.put hst hs),
    fun tenantId agentId hi => ?_⟩
  have hi : Installed t tenantId agentId :=
    (installed_congr (AList.lookup_insert_ne (key_ne (e := .tenant tenantId) (Ne.symm (he tenantId))))).mp hi
  obtain ⟨version, hv⟩ := h.versions tenantId agentId hi
  refine ⟨version, ?_⟩
  by_cases hk : agentPackageKey agentId version = e.key
  · rw [hk, AList.lookup_insert]
    rfl
  · rw [AList.lookup_insert_ne hk]
    exact hv

/-- Deleting a version of an agent that no tenant has installed. -/
theorem Registry.delete {version : ℤ} (h : Registry t) (hn : ∀ tenantId, ¬ Installed t tenantId agentId) :
    Registry (t.erase (agentPackageKey agentId version)) := by
  have hsame (tenantId : String) : (t.erase (agentPackageKey agentId version)).lookup (tenantKey tenantId) =
      t.lookup (tenantKey tenantId) :=
    AList.lookup_erase_ne (key_ne (e := .tenant tenantId) (f := .agentPackage agentId version) nofun)
  refine ⟨h.own.erase _, h.tenants.erase _, fun tenantId other hi => ?_⟩
  have hi : Installed t tenantId other := (installed_congr (hsame tenantId)).mp hi
  have hother : other ≠ agentId := fun e => hn tenantId (e ▸ hi)
  obtain ⟨v, hv⟩ := h.versions tenantId other hi
  have hne : agentPackageKey other v ≠ agentPackageKey agentId version :=
    key_ne (e := .agentPackage other v) (f := .agentPackage agentId version) (by simp [hother])
  exact ⟨v, by rw [AList.lookup_erase_ne hne]; exact hv⟩

end

/-! ## Reading the registry -/

section

omit [Yaml]

variable {t : Table} {tenantId agentId : String}

theorem reads_getTenant (tenantId : String) : Calls (fun o => DynamoOp.writes o = none) (getTenant tenantId) :=
  calls_getRow (P := fun o => DynamoOp.writes o = none) rfl _

theorem reads_versions (agentId : String) :
    Calls (fun o => DynamoOp.writes o = none) (listAgentPackageVersions agentId) :=
  ⟨rfl, fun _ => Calls.ofExcept _⟩

theorem reads_listTenants : Calls (fun o => DynamoOp.writes o = none) listTenants := ⟨rfl, fun _ => Calls.ofExcept _⟩

/-- A tenant that is read is the one that was put. -/
theorem Registry.get (h : Registry t) {tenant : Tenant}
    (hg : (exec onTable (getTenant tenantId) t).1 = .ok (some tenant)) :
    ∃ row, t.lookup (tenantKey tenantId) = some row ∧ tenant.tenantId = tenantId ∧
      serializeDict (toDecimalDict tenant.modelDump) = some row := by
  rw [getTenant, exec_getRow] at hg
  obtain ⟨row, hl, ho⟩ := readRow_eq_some.mp hg
  obtain ⟨put, hid, hs⟩ := h.tenants.lookup (e := .tenant tenantId) hl tenantId rfl
  cases tenant_readBack hs ho
  exact ⟨row, hl, hid, hs⟩

/-- A listing that gives a version is of an agent that has one. -/
theorem Registry.hasVersion (h : Registry t) {versions : List AgentPackage}
    (hl : (exec onTable (listAgentPackageVersions agentId) t).1 = .ok versions) (hne : versions ≠ []) :
    HasVersion t agentId := by
  rw [exec_listAgentPackageVersions] at hl
  obtain ⟨package, hp⟩ := List.exists_mem_of_ne_nil versions hne
  obtain ⟨row, hrow, -⟩ := (mem_of_mapM hl package).mp hp
  obtain ⟨r, hr, -⟩ := List.mem_map.mp hrow
  obtain ⟨e, hlists, hkey⟩ := lists_of_mem (l := .agentPackageVersions agentId) h.own hr
  have hlook := AList.mem_lookup_iff.mpr (Listing.mem_select (l := .agentPackageVersions agentId).mp hr).1
  cases e with
  | agentPackage id version =>
    cases hlists
    refine ⟨version, ?_⟩
    rw [show agentPackageKey agentId version = r.1 from hkey.symm, hlook]
    rfl
  | _ => cases hlists

/-- The tenants listed have among them all that have an agent installed. -/
theorem Registry.mem_listTenants (h : Registry t) {tenants : List Tenant}
    (hl : (exec onTable listTenants t).1 = .ok tenants) (hi : Installed t tenantId agentId) :
    ∃ tenant ∈ tenants, tenant.tenantId = tenantId ∧ agentId ∈ tenant.installedAgentIds := by
  rw [exec_listTenants] at hl
  have ⟨row, _, hrow, _⟩ := hi
  have hsel : ⟨tenantKey tenantId, row⟩ ∈ selectPrefix "TENANT#" t.entries := by
    refine (Listing.mem_select (l := .tenants)).mpr ⟨AList.mem_lookup_iff.mp hrow, ?_⟩
    exact (hasPrefix_append "TENANT#" tenantId : HasPrefix "TENANT#" ⟨tenantKey tenantId, row⟩)
  obtain ⟨tenant, ht⟩ := exists_of_mapM hl row (List.mem_map.mpr ⟨_, hsel, rfl⟩)
  obtain ⟨put, hid, hs⟩ := h.tenants.lookup (e := .tenant tenantId) hrow tenantId rfl
  cases tenant_readBack hs ht
  exact ⟨tenant, (mem_of_mapM hl tenant).mpr ⟨row, List.mem_map.mpr ⟨_, hsel, rfl⟩, ht⟩, hid,
    (installed_put hrow hs).mp hi⟩

end

/-! ## What each command keeps -/

omit [Pydantic] [Yaml] in
theorem putRow_safe {I : Table → Prop} {Q : Unit → Table → Prop} {key : Key} {dump : Attrs} {t : Table} (hI : I t)
    (hQ : ∀ row, serializeDict (toDecimalDict dump) = some row → Q () (t.insert key row)) :
    Safe onTable I Q (putRow key dump) t := by
  refine ⟨hI, fun c ans t' hc => ?_⟩
  obtain ⟨row, hs, ⟨-, -, h, -⟩ | ⟨-, rfl, -⟩⟩ := dynamo_put hc
  · cases h
  · exact hQ row hs

section

omit [Yaml]

variable {t : Table} {tenantId agentId : String}

omit [Pydantic] in
theorem putAgentPackage_safe (h : Registry t) (package : AgentPackage) :
    Safe onTable Registry (fun _ t => Registry t) (putAgentPackage package) t :=
  putRow_safe h fun _ hs =>
    h.put (e := .agentPackage package.agentId package.version) (fun _ => nofun) (.agentPackage package) hs

theorem installAgent_safe (h : Registry t) :
    Safe onTable Registry (fun _ t => Registry t) (installAgent tenantId agentId) t := by
  refine Safe.bind ((Safe.reads (reads_getTenant tenantId) h).mono ?_)
  rintro tenant _ ⟨rfl, hg⟩
  cases tenant with
  | none => exact h
  | some tenant =>
    refine Safe.bind ((Safe.reads (reads_versions agentId) h).mono ?_)
    rintro versions t ⟨rfl, hl⟩
    show Safe _ _ _ (if _ then _ else if _ then _ else _) t
    split
    · exact h
    · rename_i hne
      split
      · obtain ⟨row, hrow, hid, hs⟩ := h.get hg
        have hversion : HasVersion t agentId := h.hasVersion hl fun hnil => hne (by rw [hnil]; rfl)
        refine Safe.bind (putRow_safe h fun row' hs' => h.putTenant hs' fun id hin => ?_)
        obtain hin | hin := List.mem_append.mp hin
        · exact h.versions tenantId id ((installed_put hrow hs).mpr hin)
        · cases List.mem_singleton.mp hin
          exact hversion
      · exact h

/-- After an uninstall that returns, the agent is where it was, but for the
tenant. -/
theorem uninstallAgent_safe (h : Registry t) :
    Safe onTable Registry
      (fun _ t' => Registry t' ∧ ∀ id, Installed t' id agentId → id ≠ tenantId ∧ Installed t id agentId)
      (uninstallAgent tenantId agentId) t := by
  refine Safe.bind ((Safe.reads (reads_getTenant tenantId) h).mono ?_)
  rintro tenant t ⟨rfl, hg⟩
  cases tenant with
  | none => exact h
  | some tenant =>
    obtain ⟨row, hrow, rfl, hs⟩ := h.get hg
    show Safe _ _ _ (if _ then _ else _) t
    split
    · refine Safe.bind (putRow_safe h fun row' hs' => ⟨h.putTenant hs' fun id hin => ?_, fun id hi => ?_⟩)
      · exact h.versions _ id ((installed_put hrow hs).mpr (List.mem_of_mem_filter hin))
      · by_cases he : id = tenant.tenantId
        · rw [he, installed_put (AList.lookup_insert _) hs'] at hi
          exact absurd rfl (of_decide_eq_true (List.mem_filter.mp hi).2)
        · refine ⟨he, (installed_congr (AList.lookup_insert_ne ?_)).mp hi⟩
          exact key_ne (e := .tenant id) (f := .tenant tenant.tenantId) (by simpa using he)
    · rename_i hout
      refine ⟨h, fun id hi => ⟨fun he => hout ?_, hi⟩⟩
      rw [he, installed_put hrow hs] at hi
      exact hi

omit [Pydantic] in
theorem deleteAgentPackage_safe {version : ℤ} (h : Registry t) (hn : ∀ id, ¬ Installed t id agentId) :
    Safe onTable Registry (fun _ t' => Registry t' ∧ ∀ id, ¬ Installed t' id agentId)
      (deleteAgentPackage agentId version) t := by
  refine ⟨h, fun c ans t' hc => ?_⟩
  cases hc
  refine ⟨h.delete hn, fun id hi => hn id ((installed_congr (AList.lookup_erase_ne ?_)).mp hi)⟩
  exact key_ne (e := .tenant id) (f := .agentPackage agentId version) nofun

/-- The uninstalls of an unregistration: those left to do are of every tenant
that still has the agent. -/
theorem uninstalls_safe {installedOn : List String} (h : Registry t)
    (hon : ∀ id, Installed t id agentId → id ∈ installedOn) :
    Safe commandCalls Registry (fun _ t' => Registry t' ∧ ∀ id, ¬ Installed t' id agentId)
      (installedOn.forM fun tenantId => do let _ ← table (uninstallAgent tenantId agentId)) t := by
  induction installedOn generalizing t with
  | nil => exact ⟨h, fun id hi => nomatch hon id hi⟩
  | cons tenantId rest ih =>
    refine Safe.bind (Safe.bind ((table_safe (uninstallAgent_safe h)).mono ?_))
    rintro _ t' ⟨h', hleft⟩
    refine ih h' fun id hi => ?_
    obtain ⟨hne, hi⟩ := hleft id hi
    exact (List.mem_cons.mp (hon id hi)).resolve_left hne

omit [Pydantic] in
theorem deletes_safe {versions : List AgentPackage} (h : Registry t) (hn : ∀ id, ¬ Installed t id agentId) :
    Safe commandCalls Registry (fun _ t => Registry t)
      (versions.forM fun package => table (deleteAgentPackage agentId package.version)) t := by
  have hloop : Safe commandCalls Registry (fun _ t => Registry t ∧ ∀ id, ¬ Installed t id agentId)
      (versions.forM fun package => table (deleteAgentPackage agentId package.version)) t :=
    Safe.forM (fun package _ t ht => table_safe (deleteAgentPackage_safe ht.1 ht.2)) ⟨h, hn⟩
  exact hloop.mono fun _ _ h' => h'.1

theorem agentUnregister_safe (h : Registry t) (confirmed : Bool) :
    Safe commandCalls Registry (fun _ t => Registry t) (agentUnregister agentId confirmed) t := by
  refine Safe.bind ((table_safe (Safe.reads (reads_versions agentId) h)).mono ?_)
  rintro versions t ⟨rfl, -⟩
  show Safe _ _ _ (if _ then _ else _) t
  split
  · exact h
  · refine Safe.bind ((table_safe (Safe.reads reads_listTenants h)).mono ?_)
    rintro tenants t ⟨rfl, hl⟩
    show Safe _ _ _ (if _ then _ else _) t
    split
    · exact h
    · refine Safe.bind ((uninstalls_safe h fun id hi => ?_).mono fun _ t' h' => deletes_safe h'.1 h'.2)
      obtain ⟨tenant, hmem, hid, hin⟩ := h.mem_listTenants hl hi
      exact List.mem_map.mpr ⟨tenant, List.mem_filter.mpr ⟨hmem, decide_eq_true hin⟩, hid⟩

/-- A call that, if it writes a row, writes a job's. -/
def JobCalls : ClientSig.Op → Prop
  | .inl (.putItem key attrs _) => ∃ job : Job, key = jobKey job.jobId ∧ attrs = jobItem job
  | .inl o => DynamoOp.writes o = none
  | .inr _ => True

omit [Pydantic] in
theorem looks_jobCalls {o : ClientSig.Op} (h : Looks o) : JobCalls o := by
  obtain o | o := o
  · cases o with
    | putItem key attrs ifAbsent => cases h
    | _ => exact h
  · trivial

theorem calls_startSession (taskQueue tenantId prompt hex : String) :
    Calls JobCalls (startSession taskQueue agentId tenantId prompt hex) := by
  refine Calls.bind ((looks_resolvePriority tenantId).mono fun _ => looks_jobCalls) fun priority => ?_
  refine Calls.bind ((looks_latestVersion agentId).mono fun _ => looks_jobCalls) fun agentVersion => ?_
  exact ⟨trivial, fun createdAt => ⟨⟨_, rfl, rfl⟩, fun _ => ⟨trivial, fun _ => ⟨trivial, fun _ => trivial⟩⟩⟩⟩

omit [Pydantic] in
/-- Putting jobs, under whatever exceptions. -/
theorem jobCalls_safe {α : Type} {p : Client α} (f : Raised → CliError) (hp : Calls JobCalls p) (h : Registry t) :
    Safe commandCalls Registry (fun _ t => Registry t) (p.mapError f) t := by
  refine Safe.mapError (Safe.of_calls (fun o c w a w' ho hw hc => ?_) hp h)
  obtain o | o | o := o
  · have hc : onTable o () w = .ok (a, w') := hc
    cases o with
    | putItem key attrs ifAbsent =>
      obtain ⟨job, rfl, rfl⟩ := ho
      obtain ⟨row, hs, ⟨-, rfl, -⟩ | ⟨-, rfl, -⟩⟩ := dynamo_put hc
      · exact hw
      · exact hw.put (e := .job job.jobId) (fun _ => nofun) (.job job) hs
    | updateItem key set ifPresent => cases ho
    | deleteItem key => cases ho
    | _ => cases hc; exact hw
  · cases hc; exact hw
  · cases hc; exact hw

end

theorem agentPublish_safe {t : Table} (h : Registry t) (place : Workplace) (agentId : String) :
    Safe commandCalls Registry (fun _ t => Registry t) (agentPublish place agentId) t := by
  refine Safe.bind (orRaise_safe h fun problems _ => ?_)
  show Safe _ _ _ (if _ then _ else _) t
  split
  · exact h
  · refine Safe.bind (orRaise_safe h fun loaded _ => Safe.bind (orRaise_safe h fun package _ => ?_))
    exact table_safe (putAgentPackage_safe h package)

theorem agentTest_safe {t : Table} (h : Registry t) (place : Workplace) (agentId prompt tenant hex : String) :
    Safe commandCalls Registry (fun _ t => Registry t) (agentTest place agentId prompt tenant hex) t := by
  refine Safe.bind (orRaise_safe h fun problems _ => ?_)
  show Safe _ _ _ (if _ then _ else _) t
  split
  · exact h
  · have hlooks : Calls JobCalls (repo (resolvePriority tenant)) :=
      (looks_resolvePriority tenant).mono fun _ => looks_jobCalls
    refine Safe.bind ((jobCalls_safe catchValueError hlooks h).mono fun _ t h => ?_)
    refine Safe.bind (orRaise_safe h fun loaded _ => Safe.bind (orRaise_safe h fun package _ => ?_))
    refine Safe.bind ((table_safe (putAgentPackage_safe h package)).mono fun _ t h => ?_)
    exact Safe.bind (jobCalls_safe .raised (calls_startSession place.taskQueue tenant prompt hex) h)

/-- Wherever a command stops, the registry is as it should be. -/
theorem command_safe (command : Command) {t : Table} (h : Registry t) :
    Safe commandCalls Registry (fun _ t => Registry t) command.prog t := by
  cases command with
  | tenantAdd tenantId name tier priorityKey fairnessWeight memoryNamespace s3Prefix =>
    -- it leaves the tenant nothing installed
    exact table_safe (putRow_safe h fun row hs => h.putTenant hs fun id hid => nomatch hid)
  | install tenantId agentId => exact Safe.bind ((catching_safe (installAgent_safe h)).mono fun _ _ h => h)
  | uninstall tenantId agentId => exact Safe.bind ((catching_safe (uninstallAgent_safe h)).mono fun _ _ h => h.1)
  | publish place agentId => exact agentPublish_safe h place agentId
  | test place agentId prompt tenant hex => exact agentTest_safe h place agentId prompt tenant hex
  | registerHosted agentId name runtimeArn version description =>
    show Safe _ _ _ (if _ then _ else _) t
    split
    · exact table_safe (putAgentPackage_safe h _)
    · exact h
  | unregister agentId confirmed => exact agentUnregister_safe h confirmed

omit [Pydantic] [Yaml] in
theorem Registry.empty : Registry ∅ where
  own := Rows.empty
  tenants := Rows.empty
  versions := fun _ _ ⟨_, _, h, _⟩ => nomatch h

theorem afterCommands_registry (commands : List (Command × List String)) : Registry (afterCommands commands) := by
  refine runs_safe (fun p hp t h => ?_) Registry.empty
  obtain ⟨c, -, rfl⟩ := List.mem_map.mp hp
  exact command_safe c.1 h

/-- No install dangles: whatever commands are run, and wherever each of them
stops, an agent that a tenant has installed has a version. -/
theorem no_dangling_install (commands : List (Command × List String)) (tenantId agentId : String)
    (h : Installed (afterCommands commands) tenantId agentId) : HasVersion (afterCommands commands) agentId :=
  (afterCommands_registry commands).versions tenantId agentId h

/-- What a tenant is read with is what its row has installed. -/
theorem getTenant_installed (commands : List (Command × List String)) {tenantId agentId : String} {tenant : Tenant}
    (hg : (exec onTable (getTenant tenantId) (afterCommands commands)).1 = .ok (some tenant)) :
    Installed (afterCommands commands) tenantId agentId ↔ agentId ∈ tenant.installedAgentIds := by
  obtain ⟨row, hrow, -, hs⟩ := (afterCommands_registry commands).get hg
  exact installed_put hrow hs

/-! ## A hosted agent, installed -/

omit [Pydantic] [Yaml]

/-- No file is YAML. -/
@[reducible] def noYaml : Yaml := ⟨fun _ => .error (.yamlError ""), fun _ _ => none, fun _ => ""⟩

/-- A tenant is added, an agent registered by its ARN, and installed; then it
is unregistered, up to the write of the tenant. -/
def vendorInstalled : List (Command × List String) :=
  [(.tenantAdd "initech" "Initech" .free 5 (.fin (.ofInt 1 Binary64.abs_one_le)) "" "", [""]),
    (.registerHosted "vendorcheck" "Vendor check" "arn:aws:bedrock-agentcore:us-east-1:1:runtime/vendorcheck" 1 "", [""]),
    (.install "initech" "vendorcheck", List.replicate 3 ""),
    (.unregister "vendorcheck" true, List.replicate 3 "")]

theorem no_dangling_install_vendor :
    letI := digits
    letI := noYaml
    HasVersion (afterCommands vendorInstalled) "vendorcheck" := by
  let _ := digits
  let _ := noYaml
  have hread : ((exec onTable (getTenant "initech") (afterCommands vendorInstalled)).1.toOption.bind id).map
      (fun tenant => tenant.installedAgentIds) = some ["vendorcheck"] := by decide +kernel
  refine no_dangling_install vendorInstalled "initech" "vendorcheck" ?_
  cases hg : (exec onTable (getTenant "initech") (afterCommands vendorInstalled)).1 with
  | error e =>
    rw [hg] at hread
    cases hread
  | ok tenant =>
    rw [hg] at hread
    obtain ⟨tenant, rfl, hids⟩ := Option.map_eq_some_iff.mp hread
    refine (getTenant_installed vendorInstalled hg).mpr ?_
    rw [hids]
    exact List.mem_singleton_self _

end ControlPlane
