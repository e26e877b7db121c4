import ControlPlane.Cli.Publish
import ControlPlane.Workflows.JobRun

/-!
# What is published

The rows of packages that the commands leave, and the jobs that run on them:
every row is of a package that some command put (`afterCommands_packages`),
and what the commands put resolves (`Command.Publishes.resolvable`).

* `published_sealed`: rows of tier 3 carry nothing a hosted agent would not
  see.
* `published_resolve`: a job finds all that its row names, if every package
  published on tier 3 had a runtime to name. Without one it is published all
  the same, and its job fails (`published_unresolved`).
-/

namespace ControlPlane

open Effect Effect.Prog

/-! ## What a job finds -/

/-- What the rows of validated packages have: every name is in its catalog, and
a hosted agent has none. -/
structure Resolvable (package : AgentPackage) : Prop where
  tools : ∀ tool ∈ package.tools, tool ∈ toolCatalog.map Prod.fst
  mcpServers : ∀ server ∈ package.mcpServers, server ∈ mcpServerCatalog
  outputModel : ∀ name, package.outputModel = some name → name ∈ outputModelCatalog
  hosted : package.tier = .hosted →
    package.tools = [] ∧ package.mcpServers = [] ∧ package.approvalPolicy = none ∧ package.outputModel = none

/-- A hosted agent has a runtime. -/
def HasRuntime (package : AgentPackage) : Prop := package.tier = .hosted → package.runtimeArn.getD "" ≠ ""

theorem Translates.resolvable {manifest : Manifest} {sop : String} {package : AgentPackage}
    (ht : Translates manifest sop package) (hv : Valid manifest sop) : Resolvable package := by
  refine ⟨?_, ?_, ?_, fun htier => ?_⟩
  · rw [ht.tools]
    exact hv.tools
  · rw [ht.mcpServers]
    exact hv.mcpServers
  · rw [ht.outputModel]
    exact hv.outputModel
  · rw [ht.tools, ht.mcpServers, ht.approvalPolicy, ht.outputModel]
    apply hv.hosted
    rw [← ht.tier, htier]

/-- The type of the ApplicationError, if it is one. -/
def Raised.type : Raised → Option String
  | .applicationError _ type _ => type
  | _ => none

def Failure.type : Failure → Option String
  | .activity cause => cause.type
  | .application e => e.type
  | .session => none

/-- The errors of a job that does not find what its package names. -/
def resolutionErrors : List String :=
  ["UnknownTool", "UnknownMCPServer", "UnknownOutputModel", "HostedRuntimeNotConfigured"]

section

variable {job : AgentJobInput} {package : AgentPackage} {s s' : JobRun}

theorem resolveName_ok {α : Type} {catalog : String → Option α} {kind type agentId name : String}
    (h : (catalog name).isSome) : ∃ a, resolveName catalog kind type agentId name = .ok a := by
  obtain ⟨a, ha⟩ := Option.isSome_iff_exists.mp h
  refine ⟨a, ?_⟩
  unfold resolveName
  rw [ha]

theorem find_isSome {names : List String} {name : String} (h : name ∈ names) : (names.find? (· = name)).isSome := by
  rw [List.find?_isSome]
  exact ⟨name, h, decide_eq_true rfl⟩

theorem toolCatalog_isSome {name : String} (h : name ∈ toolCatalog.map Prod.fst) :
    ((toolCatalog.lookup name).map fun spec => (name, spec)).isSome := by
  rw [Option.isSome_map]
  simp only [toolCatalog, List.map_cons, List.map_nil, List.mem_cons, List.not_mem_nil, or_false] at h
  rcases h with rfl | rfl | rfl | rfl | rfl <;> decide

/-- The native lane's setup succeeds. -/
theorem agentSetup_ok (h : Resolvable package) (recalled : List String) :
    ∃ setup, agentSetup job package recalled = .ok setup := by
  obtain ⟨tools, htools⟩ : ∃ tools, package.tools.mapM (resolveTool package.agentId) = .ok tools :=
    mapM_exists fun tool ht => resolveName_ok (toolCatalog_isSome (h.tools tool ht))
  obtain ⟨servers, hservers⟩ : ∃ servers, package.mcpServers.mapM (resolveMcpServer package.agentId) = .ok servers :=
    mapM_exists fun server hs => resolveName_ok (find_isSome (h.mcpServers server hs))
  unfold agentSetup
  rw [htools, hservers]
  cases ho : package.outputModel with
  | none => exact ⟨_, rfl⟩
  | some name =>
    obtain ⟨a, ha⟩ : ∃ a, resolveOutputModel package.agentId name = .ok a :=
      resolveName_ok (find_isSome (h.outputModel name ho))
    simp only [ha]
    exact ⟨_, rfl⟩

/-- With an ARN, the hosted agent's errors are its own. -/
theorem invokeHostedAgent_type {arn : String} {response : Option HostedResponse} {e : Raised} (ha : arn ≠ "")
    (he : invokeHostedAgent arn response = .error e) : ∀ type ∈ e.type, type ∉ resolutionErrors := by
  unfold invokeHostedAgent at he
  rw [if_neg ha] at he
  split at he
  · cases he
    exact nofun
  · split at he
    · split at he
      · cases he
        rintro _ ⟨⟩
        decide
      · cases he
    · cases he

/-- Where a run is on a package that resolves. -/
def Finds (package : AgentPackage) (s : JobRun) : Prop :=
  match s.stage with
  | .recalling p => p = package
  | .hosting p => p = package ∧ p.tier = .hosted
  | .raised failure => ∀ type ∈ failure.type, type ∉ resolutionErrors
  | _ => True

theorem finds_step {a : JobAction} (hr : Resolvable package) (hh : HasRuntime package) (h : Finds package s)
    (ha : ∀ result, a = .resolved result → result = .ok package) (hs : JobRun.Steps job s a s') :
    Finds package s' := by
  cases hs with
  | signal interruptId decision => exact h
  | @session a p setup session hp hstep =>
    unfold JobRun.afterSession
    split
    · trivial
    · exact nofun
    · show Finds package { s with session }
      unfold Finds
      rw [show ({ s with session } : JobRun).stage = .native p setup from hp]
      trivial
  | marked result hp => trivial
  | resolved p hp => exact Except.ok.inj (ha _ rfl)
  | unresolved e hp => cases ha _ rfl
  | @recalled result p hp =>
    unfold Finds at h
    rw [hp] at h
    subst h
    unfold JobRun.enterLane
    simp only
    split
    · rename_i ht
      exact ⟨rfl, ht⟩
    · have hok : ∃ setup, agentSetup job p (result.toOption.getD []) = .ok setup := agentSetup_ok hr _
      obtain ⟨setup, hsetup⟩ := hok
      rw [hsetup]
      trivial
  | invoked response hp ho => trivial
  | @rejected response p e hp he =>
    unfold Finds at h
    rw [hp] at h
    obtain ⟨rfl, ht⟩ := h
    exact invokeHostedAgent_type (hh ht) he
  | guardrail tool verdict hp hi =>
    unfold JobRun.onVerdict
    split
    · split
      · exact h
      · exact h
    · exact h
  | recorded result hp => trivial
  | slept hp => trivial

/-- A job on a package that resolves, with a runtime if it is hosted, never
fails to find what its package names. -/
theorem finds_run {history : List JobAction} (hr : Resolvable package) (hh : HasRuntime package)
    (hrun : Machine.run (JobRun.step job) {} history = some s)
    (hrow : ∀ result, .resolved result ∈ history → result = .ok package) : Finds package s := by
  refine Machine.run_keeps
    (I := fun history s => (∀ result, .resolved result ∈ history → result = .ok package) → Finds package s)
    ?_ ?_ hrun hrow
  · exact fun _ => trivial
  · intro history s a s' hI hstep hrow
    have hfinds : Finds package s := hI fun result hm => hrow result (List.mem_append_left _ hm)
    apply finds_step hr hh hfinds ?_ (JobRun.steps_of_step hstep)
    rintro result rfl
    exact hrow result (List.mem_append_right _ List.mem_cons_self)

end

/-! ## What the commands put -/

/-- A call that, if it puts a package's row, puts that of a package in `P`. -/
def Puts (P : AgentPackage → Prop) : ClientSig.Op → Prop
  | .inl (.putItem key attrs _) =>
    (∃ package, P package ∧ key = agentPackageKey package.agentId package.version ∧
      attrs = toDecimalDict package.modelDump) ∨ ∀ agentId version, agentPackageKey agentId version ≠ key
  | .inl (.updateItem _ _ _) => False
  | _ => True

/-- Every package's row is that of a package in `P`. -/
def PackageRows (P : AgentPackage → Prop) (t : Table) : Prop :=
  ∀ agentId version row, t.lookup (agentPackageKey agentId version) = some row →
    ∃ package, P package ∧ serializeDict (toDecimalDict package.modelDump) = some row

section

variable {P : AgentPackage → Prop}

theorem puts_entity {e : Entity} (he : ∀ agentId version, Entity.agentPackage agentId version ≠ e) {attrs : Attrs}
    {ifAbsent : Bool} : Puts P (.inl (.putItem e.key attrs ifAbsent)) :=
  .inr fun agentId version => key_ne (e := .agentPackage agentId version) (he agentId version)

theorem puts_read {o : DynamoOp} (h : o.writes = none) : Puts P (.inl o) := by
  cases o with
  | putItem key attrs ifAbsent => cases h
  | updateItem key set ifPresent => cases h
  | _ => trivial

theorem puts_job {o : ClientSig.Op} (h : JobCalls o) : Puts P o := by
  obtain o | o := o
  · cases o with
    | putItem key attrs ifAbsent =>
      obtain ⟨job, rfl, -⟩ := h
      exact puts_entity (e := .job job.jobId) fun _ _ => nofun
    | _ => exact puts_read h
  · trivial

/-- What such calls keep. -/
theorem packageRows_put {o : ClientSig.Op} {instant : String} {t t' : Table} {ans : ClientSig.Ans o} (ho : Puts P o)
    (h : PackageRows P t) (hc : commandCalls o instant t = .ok (ans, t')) : PackageRows P t' := by
  obtain o | o | o := o
  · have hd : onTable o () t = .ok (ans, t') := mapError_ok (S := ClientSig) (o := .inl o) hc
    cases o with
    | putItem key attrs ifAbsent =>
      obtain ⟨row, hs, ⟨-, rfl, -⟩ | ⟨-, rfl, -⟩⟩ := dynamo_put hd
      · exact h
      · intro agentId version row' hrow
        by_cases hk : agentPackageKey agentId version = key
        · obtain ⟨package, hp, hkey, rfl⟩ | hne := ho
          · rw [hk, AList.lookup_insert] at hrow
            cases hrow
            exact ⟨package, hp, hs⟩
          · exact absurd hk (hne agentId version)
        · rw [AList.lookup_insert_ne hk] at hrow
          exact h agentId version row' hrow
    | updateItem key set ifPresent => exact ho.elim
    | deleteItem key =>
      cases hd
      intro agentId version row hrow
      by_cases hk : agentPackageKey agentId version = key
      · subst hk
        rw [AList.lookup_erase] at hrow
        cases hrow
      · rw [AList.lookup_erase_ne hk] at hrow
        exact h agentId version row hrow
    | _ =>
      cases hd
      exact h
  · cases hc
    exact h
  · cases hc
    exact h

theorem calls_table {α : Type} {p : Repo α} (h : Calls (fun o => Puts P (.inl o)) p) : Calls (Puts P) (table p) :=
  (Calls.inl h).mapError _

theorem calls_catching {α : Type} {p : Repo α} (h : Calls (fun o => Puts P (.inl o)) p) :
    Calls (Puts P) (catching p) := (Calls.inl h).mapError _

theorem calls_orRaise {α β ε : Type} {f : ε → CliError} {r : Except ε α} {g : α → Cli β}
    (h : ∀ a, r = .ok a → Calls (Puts P) (g a)) : Calls (Puts P) (orRaise f r >>= g) := by
  cases r with
  | error e => trivial
  | ok a => exact h a rfl

theorem calls_putAgentPackage {package : AgentPackage} (h : P package) :
    Calls (Puts P) (table (putAgentPackage package)) :=
  calls_table ⟨.inl ⟨package, h, rfl, rfl⟩, fun _ => trivial⟩

end

variable [Pydantic] [Yaml]

/-- A package on disk that validates becomes this row. -/
def Converts (place : Workplace) (agentId : String) (package : AgentPackage) : Prop :=
  ∃ manifest sop, validate place.disk agentId = .ok [] ∧ loadManifest place.disk agentId = .ok (manifest, sop) ∧
    toPackage place.runtimeEndpoint manifest sop = .ok package

/-- The package a command may put. -/
def Command.Publishes (package : AgentPackage) : Command → Prop
  | publish place agentId => Converts place agentId package
  | test place agentId _ _ _ => Converts place agentId package
  | registerHosted agentId name runtimeArn version description =>
    arnPrefix.toList.isPrefixOf runtimeArn.toList = true ∧
      package = hostedPackage agentId name runtimeArn version description
  | _ => False

section

variable {P : AgentPackage → Prop}

omit [Yaml] in
theorem calls_getTenant (tenantId : String) : Calls (fun o => Puts P (.inl o)) (getTenant tenantId) :=
  (reads_getTenant tenantId).mono fun _ => puts_read

omit [Pydantic] [Yaml] in
theorem puts_tenant (tenant : Tenant) : Calls (fun o => Puts P (.inl o)) (putTenant tenant) :=
  ⟨puts_entity (e := .tenant tenant.tenantId) fun _ _ => nofun, fun _ => trivial⟩

omit [Yaml] in
theorem calls_installAgent (tenantId agentId : String) :
    Calls (fun o => Puts P (.inl o)) (installAgent tenantId agentId) := by
  refine (calls_getTenant tenantId).bind fun tenant => ?_
  rcases tenant with _ | tenant
  · trivial
  · refine ((reads_versions agentId).mono fun _ => puts_read).bind fun versions => ?_
    show Calls _ (if _ then _ else if _ then _ else _)
    split_ifs
    · trivial
    · trivial
    · exact (puts_tenant _).bind fun _ => trivial

omit [Yaml] in
theorem calls_uninstallAgent (tenantId agentId : String) :
    Calls (fun o => Puts P (.inl o)) (uninstallAgent tenantId agentId) := by
  refine (calls_getTenant tenantId).bind fun tenant => ?_
  rcases tenant with _ | tenant
  · trivial
  · show Calls _ (if _ then _ else _)
    split_ifs
    · exact (puts_tenant _).bind fun _ => trivial
    · trivial

omit [Yaml] in
theorem calls_agentUnregister (agentId : String) (confirmed : Bool) :
    Calls (Puts P) (agentUnregister agentId confirmed) := by
  refine (calls_table ((reads_versions agentId).mono fun _ => puts_read)).bind fun versions => ?_
  show Calls _ (if _ then _ else _)
  split
  · trivial
  · refine (calls_table (reads_listTenants.mono fun _ => puts_read)).bind fun tenants => ?_
    show Calls _ (if _ then _ else _)
    split
    · trivial
    · refine (Calls.forM fun tenantId _ => ?_).bind fun _ => Calls.forM fun package _ => ?_
      · exact (calls_table (calls_uninstallAgent tenantId agentId)).bind fun _ => trivial
      · exact calls_table ⟨trivial, fun _ => trivial⟩

/-- A command puts no other packages. -/
theorem calls_command {command : Command} (h : ∀ package, command.Publishes package → P package) :
    Calls (Puts P) command.prog := by
  cases command with
  | tenantAdd tenantId name tier priorityKey fairnessWeight memoryNamespace s3Prefix =>
    exact calls_table (puts_tenant _)
  | install tenantId agentId => exact (calls_catching (calls_installAgent tenantId agentId)).bind fun _ => trivial
  | uninstall tenantId agentId => exact (calls_catching (calls_uninstallAgent tenantId agentId)).bind fun _ => trivial
  | publish place agentId =>
    refine calls_orRaise fun problems hv => ?_
    show Calls _ (if _ then _ else _)
    split_ifs with hne
    · trivial
    · refine calls_orRaise fun loaded hl => calls_orRaise fun package hp => calls_putAgentPackage (h package ?_)
      exact ⟨loaded.1, loaded.2, by rw [hv, not_not.mp hne], hl, hp⟩
  | test place agentId prompt tenant hex =>
    refine calls_orRaise fun problems hv => ?_
    show Calls _ (if _ then _ else _)
    split_ifs with hne
    · trivial
    · have hlooks : Calls (Puts P) (catching (resolvePriority tenant)) :=
        ((looks_resolvePriority tenant).mono fun _ ho => puts_job (looks_jobCalls ho)).mapError _
      refine hlooks.bind fun _ => calls_orRaise fun loaded hl => calls_orRaise fun package hp => ?_
      have hput : P package := h package ⟨loaded.1, loaded.2, by rw [hv, not_not.mp hne], hl, hp⟩
      refine (calls_putAgentPackage hput).bind fun _ => Calls.bind ?_ fun _ => trivial
      exact ((calls_startSession place.taskQueue tenant prompt hex).mono fun _ => puts_job).mapError _
  | registerHosted agentId name runtimeArn version description =>
    show Calls _ (if _ then _ else _)
    split_ifs with ha
    · exact calls_putAgentPackage (h _ ⟨ha, rfl⟩)
    · trivial
  | unregister agentId confirmed => exact calls_agentUnregister agentId confirmed

/-- Every row is of a package that one of the commands puts. -/
theorem afterCommands_packages {commands : List (Command × List String)}
    (h : ∀ c ∈ commands, ∀ package, c.1.Publishes package → P package) : PackageRows P (afterCommands commands) := by
  refine runs_safe (fun p hp t ht => ?_) (fun _ _ _ hrow => nomatch hrow)
  obtain ⟨c, hc, rfl⟩ := List.mem_map.mp hp
  exact Safe.of_calls (fun _ _ _ _ _ ho hw hcall => packageRows_put ho hw hcall) (calls_command (h c hc)) ht

end

/-! ## Published rows -/

/-- A row of tier 3 carries nothing that the hosted agent would not see. -/
def Sealed (row : Attrs) : Prop :=
  row.lookup "tier" = some (.str AgentTier.hosted.value) →
    row.lookup "tools" = some (.list []) ∧ row.lookup "mcp_servers" = some (.list []) ∧
      row.lookup "approval_policy" = some .null ∧ row.lookup "output_model" = some .null

/-- A manifest of tier 3 that is published names a runtime, or the settings of
the place do. -/
def NamesRuntime (place : Workplace) (agentId : String) : Prop :=
  ∀ manifest sop, validate place.disk agentId = .ok [] → loadManifest place.disk agentId = .ok (manifest, sop) →
    manifest.tier = AgentTier.hosted.value →
      (∃ arn, manifest.runtimeArn = some arn ∧ arn ≠ "") ∨ (setting place.runtimeEndpoint).isSome

def Command.NamesRuntime : Command → Prop
  | publish place agentId => ControlPlane.NamesRuntime place agentId
  | test place agentId _ _ _ => ControlPlane.NamesRuntime place agentId
  | _ => True

section

variable {place : Workplace} {agentId : String} {manifest : Manifest} {sop : String} {package : AgentPackage}

omit [Pydantic] [Yaml] in
theorem Resolvable.sealed {row : Attrs} (h : Resolvable package)
    (hs : serializeDict (toDecimalDict package.modelDump) = some row) : Sealed row := by
  have hl (name : String) : row.lookup name = (package.modelDump.lookup name).map toDecimal >>= serialize :=
    stored_lookup hs name
  intro htier
  have hvalue : row.lookup "tier" = some (.str package.tier.value) := hl "tier"
  rw [hvalue] at htier
  have hhosted : package.tier = .hosted := by
    revert htier
    cases package.tier <;> simp [AgentTier.value]
  obtain ⟨htools, hservers, hpolicy, houtput⟩ := h.hosted hhosted
  simp only [hl, AgentPackage.modelDump, htools, hservers, hpolicy, houtput]
  exact ⟨rfl, rfl, rfl, rfl⟩

omit [Pydantic] [Yaml] in
theorem setting_ne {raw : Option String} {s : String} (h : setting raw = some s) : s ≠ "" := by
  rintro rfl
  obtain ⟨-, hs⟩ := Option.filter_eq_some_iff.mp h
  cases hs

omit [Pydantic] [Yaml] in
theorem toPackage_runtimeArn {endpoint : Option String} (h : toPackage endpoint manifest sop = .ok package) :
    package.runtimeArn =
      strOr manifest.runtimeArn (if manifest.tier = AgentTier.hosted.value then setting endpoint else none) := by
  unfold toPackage at h
  cases ht : agentTier manifest.tier with
  | error e =>
    rw [ht] at h
    cases h
  | ok tier =>
    rw [ht] at h
    cases h
    rfl

omit [Pydantic] [Yaml] in
/-- The package of a manifest that names a runtime, or whose place does. -/
theorem toPackage_hasRuntime {endpoint : Option String} (h : toPackage endpoint manifest sop = .ok package)
    (hn : manifest.tier = AgentTier.hosted.value →
      (∃ arn, manifest.runtimeArn = some arn ∧ arn ≠ "") ∨ (setting endpoint).isSome) : HasRuntime package := by
  intro hhosted
  have htier : manifest.tier = AgentTier.hosted.value := by rw [← (toPackage_translates h).tier, hhosted]
  rw [toPackage_runtimeArn h, if_pos htier, strOr]
  by_cases hown : ∃ arn, manifest.runtimeArn = some arn ∧ arn ≠ ""
  · obtain ⟨arn, harn, hne⟩ := hown
    have hkeep : (some arn).filter (· ≠ "") = some arn := Option.filter_some_pos (decide_eq_true hne)
    rw [harn, hkeep]
    exact hne
  · have hnone : manifest.runtimeArn.filter (· ≠ "") = none := by
      rw [Option.filter_eq_none_iff]
      rintro arn harn hne
      exact hown ⟨arn, harn, of_decide_eq_true hne⟩
    obtain ⟨endpoint, hset⟩ := Option.isSome_iff_exists.mp ((hn htier).resolve_left hown)
    rw [hnone, hset]
    exact setting_ne hset

theorem Converts.resolvable (h : Converts place agentId package) : Resolvable package := by
  obtain ⟨manifest, sop, hv, hl, hp⟩ := h
  obtain ⟨manifest', sop', hl', hvalid⟩ := validate_nil hv
  cases hl.symm.trans hl'
  exact (toPackage_translates hp).resolvable hvalid

theorem Converts.hasRuntime (h : Converts place agentId package) (hn : NamesRuntime place agentId) :
    HasRuntime package := by
  obtain ⟨manifest, sop, hv, hl, hp⟩ := h
  exact toPackage_hasRuntime hp (hn manifest sop hv hl)

/-- What the commands publish resolves. -/
theorem Command.Publishes.resolvable {command : Command} (h : command.Publishes package) : Resolvable package := by
  cases command with
  | publish place agentId => exact Converts.resolvable h
  | test place agentId prompt tenant hex => exact Converts.resolvable h
  | registerHosted agentId name runtimeArn version description =>
    obtain ⟨-, rfl⟩ := h
    exact ⟨List.forall_mem_nil _, List.forall_mem_nil _, nofun, fun _ => ⟨rfl, rfl, rfl, rfl⟩⟩
  | _ => exact h.elim

theorem Command.Publishes.hasRuntime {command : Command} (h : command.Publishes package) (hn : command.NamesRuntime) :
    HasRuntime package := by
  cases command with
  | publish place agentId => exact Converts.hasRuntime h hn
  | test place agentId prompt tenant hex => exact Converts.hasRuntime h hn
  | registerHosted agentId name runtimeArn version description =>
    obtain ⟨hpre, rfl⟩ := h
    rintro - rfl
    cases hpre
  | _ => exact h.elim

end

/-- Whatever commands are run, rows of tier 3 carry nothing a hosted agent
would not see. -/
theorem published_sealed (commands : List (Command × List String)) (agentId : String) (version : ℤ) (row : Attrs)
    (hrow : (afterCommands commands).lookup (agentPackageKey agentId version) = some row) : Sealed row := by
  obtain ⟨package, hp, hs⟩ :=
    afterCommands_packages (fun c _ _ hpublishes => hpublishes.resolvable) agentId version row hrow
  exact hp.sealed hs

/-- **What is published resolves.** After any commands, where each package
published on tier 3 had a runtime to name, a job on a row never fails to find
what the row names, and a row of tier 3 carries nothing it should not. -/
theorem published_resolve (commands : List (Command × List String)) (hc : ∀ c ∈ commands, c.1.NamesRuntime)
    (agentId : String) (version : ℤ) (row : Attrs)
    (hrow : (afterCommands commands).lookup (agentPackageKey agentId version) = some row) :
    Sealed row ∧ ∀ package, ofItem AgentPackage.ofKwargs row = .ok package →
      ∀ job history s, Machine.run (JobRun.step job) {} history = some s →
        (∀ result, .resolved result ∈ history → result = .ok package) →
        ∀ failure, s.stage = .raised failure → ∀ type ∈ failure.type, type ∉ resolutionErrors := by
  obtain ⟨put, ⟨hr, hh⟩, hs⟩ := afterCommands_packages (P := fun package => Resolvable package ∧ HasRuntime package)
    (fun c hm package hpublishes => ⟨hpublishes.resolvable, hpublishes.hasRuntime (hc c hm)⟩) agentId version row hrow
  refine ⟨hr.sealed hs, fun package hread job history s hrun hres failure hf => ?_⟩
  cases package_readBack hs hread
  have hfinds := finds_run hr hh hrun hres
  unfold Finds at hfinds
  rw [hf] at hfinds
  exact hfinds

/-! ## A hosted agent without a runtime -/

omit [Pydantic] [Yaml]

def vendorManifest : String := "id: vendorcheck\nname: VendorCheck\ntier: '3'\n"

@[reducible] def vendorYaml : Yaml := yamlOf [(vendorManifest,
  .dict [(.str "id", .str "vendorcheck"), (.str "name", .str "VendorCheck"), (.str "tier", .str "3")])]

/-- A disk with that agent, which pins no ARN. -/
def vendorPlace (runtimeEndpoint : Option String) : Workplace where
  disk := ⟨"agents", fun directory =>
    if directory = "vendorcheck" then ⟨some (.text vendorManifest), some (.text "Check the vendor.")⟩ else ⟨none, none⟩⟩
  runtimeEndpoint
  taskQueue := "agents"

def vendorPublished (runtimeEndpoint : Option String) : List (Command × List String) :=
  [(.publish (vendorPlace runtimeEndpoint) "vendorcheck", [""])]

def vendorEndpoint : String := "arn:aws:bedrock-agentcore:us-east-1:1:runtime/vendorcheck"

def vendorJob : AgentJobInput := ⟨"session-vendorcheck-1", "initech", "vendorcheck", 1, "Check Initech Supply."⟩

theorem published_resolve_vendor :
    letI := digits
    letI := vendorYaml
    ∃ row, (afterCommands (vendorPublished (some vendorEndpoint))).lookup (agentPackageKey "vendorcheck" 1) = some row ∧
      Sealed row := by
  let _ := digits
  let _ := vendorYaml
  have hsome : ((afterCommands (vendorPublished (some vendorEndpoint))).lookup
      (agentPackageKey "vendorcheck" 1)).isSome = true := by decide +kernel
  obtain ⟨row, hrow⟩ := Option.isSome_iff_exists.mp hsome
  have hset : (setting (some vendorEndpoint)).isSome = true := by decide +kernel
  have hc : ∀ c ∈ vendorPublished (some vendorEndpoint), c.1.NamesRuntime :=
    List.forall_mem_singleton.mpr fun _ _ _ _ _ => .inr hset
  exact ⟨row, hrow, (published_resolve _ hc "vendorcheck" 1 row hrow).1⟩

/-- A hosted agent's job without a runtime fails. -/
theorem noRuntime_fails (job : AgentJobInput) {package : AgentPackage} (ht : package.tier = .hosted)
    (ha : package.runtimeArn = none) :
    ∃ s, Machine.run (JobRun.step job) {} [.marked (.ok ()), .resolved (.ok package), .recalled (.ok []), .invoked none] =
      some s ∧ ∃ failure, s.stage = .raised failure ∧ failure.type = some "HostedRuntimeNotConfigured" := by
  obtain ⟨_, _, _, tier, _, _, _, _, _, _, _, _, arn⟩ := package
  cases ht
  cases ha
  exact ⟨_, rfl, _, rfl, rfl⟩

/-- Where the endpoint is not set the agent is published, and its job fails. -/
theorem published_unresolved :
    letI := digits
    letI := vendorYaml
    ∃ row package, (afterCommands (vendorPublished none)).lookup (agentPackageKey "vendorcheck" 1) = some row ∧
      ofItem AgentPackage.ofKwargs row = .ok package ∧
      ∃ s, Machine.run (JobRun.step vendorJob) {} [.marked (.ok ()), .resolved (.ok package), .recalled (.ok []), .invoked none] =
        some s ∧ ∃ failure, s.stage = .raised failure ∧ failure.type = some "HostedRuntimeNotConfigured" := by
  let _ := digits
  let _ := vendorYaml
  have hread : (((afterCommands (vendorPublished none)).lookup (agentPackageKey "vendorcheck" 1)).bind fun row =>
      (ofItem AgentPackage.ofKwargs row).toOption.map fun package => (package.tier, package.runtimeArn)) =
        some (.hosted, none) := by decide +kernel
  obtain ⟨row, hrow, hread⟩ := Option.bind_eq_some_iff.mp hread
  cases hof : ofItem AgentPackage.ofKwargs row with
  | error e =>
    rw [hof] at hread
    cases hread
  | ok package =>
    rw [hof] at hread
    simp only [Except.toOption, Option.map_some, Option.some.injEq, Prod.mk.injEq] at hread
    obtain ⟨htier, harn⟩ := hread
    refine ⟨row, package, hrow, hof, ?_⟩
    exact noRuntime_fails vendorJob htier harn

end ControlPlane
