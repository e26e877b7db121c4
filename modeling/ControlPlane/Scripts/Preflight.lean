import ControlPlane.Config

/-!
# Preflight

`scripts/preflight.py`: twenty checks (`checks`), each run under a guard that
makes a FAIL of what it raises (`guarded`), over settings, a client and a
routing status that `main` gets before them. What the checks of the environment
and of Temporal say is modelled; of the others, that they raise or return a
result of their own name.

`preflight_reports_iff`: `main` prints a result for every check and exits with
1 exactly for a FAIL (`Reports`) if and only if the settings load. They load
outside any guard, so where they do not nothing is printed
(`preflight_unset`), and the check that would say so does not run.
-/

namespace ControlPlane

namespace Preflight

/-! ## Results -/

inductive Status
  | pass
  | warn
  | fail
  deriving DecidableEq

def Status.value : Status → String
  | .pass => "PASS"
  | .warn => "WARN"
  | .fail => "FAIL"

structure CheckResult where
  name : String
  status : Status
  detail : String
  remediation : Option String := none

def CheckResult.render (result : CheckResult) : String :=
  "[" ++ result.status.value ++ "] " ++ result.name ++ " — " ++ result.detail ++
    if result.status ≠ .pass then
      match result.remediation.filter (· ≠ "") with
      | some remediation => "\n       fix: " ++ remediation
      | none => ""
    else ""

/-- An exception: its `str`, and its `repr`. -/
structure Exc where
  str : String
  repr : String

/-- What a check comes to; its results have its own name. -/
abbrev Outcome (name : String) := Except Exc { result : CheckResult // result.name = name }

structure Check where
  name : String
  run : Outcome name

def crashed (name : String) (e : Exc) : CheckResult where
  name := name
  status := .fail
  detail := "unexpected error: " ++ e.repr
  remediation := "this check crashed rather than reporting cleanly — investigate the traceback above/rerun with " ++
    "`uv run python -m scripts.preflight` directly to see it"

def guarded (check : Check) : CheckResult :=
  match check.run with
  | .ok result => result.val
  | .error e => crashed check.name e

/-! ## The environment -/

def demoCriticalOptionalFields (settings : Settings) : List (String × Option String) :=
  [("bedrock_guardrail_id", settings.bedrockGuardrailId), ("bedrock_guardrail_version", settings.bedrockGuardrailVersion),
    ("agentcore_gateway_url", settings.agentcoreGatewayUrl), ("agentcore_memory_id", settings.agentcoreMemoryId),
    ("agentcore_runtime_endpoint", settings.agentcoreRuntimeEndpoint), ("s3_bucket_name", settings.s3BucketName)]

/-- Of the settings it loads itself. -/
def checkEnv (loaded : Except Exc Settings) : Outcome ".env" :=
  match loaded with
  | .error e => .ok ⟨{
      name := ".env", status := .fail, detail := "required settings missing or invalid: " ++ e.str
      remediation := "fill in the missing keys in .env — copy the header comments in .env for the full list of keys " ++
        "this app reads" }, rfl⟩
  | .ok settings =>
    match (demoCriticalOptionalFields settings).filter fun field => field.2.isNone with
    | [] => .ok ⟨{ name := ".env", status := .pass, detail := "every required and demo-critical setting is set" }, rfl⟩
    | missing => .ok ⟨{
        name := ".env", status := .fail
        detail := "empty but required for this demo: " ++ ", ".intercalate (missing.map fun field => field.1.toUpper)
        remediation := "set these in .env — every AgentCore-first demo beat depends on all of them being configured, " ++
          "even though app/config.py allows them to be unset for a fork that hasn't provisioned AgentCore yet" }, rfl⟩

/-! ## Temporal -/

structure RoutingStatus where
  currentVersion : String
  rampingVersion : String
  rampingPercentage : PyFloat

/-- A client, and what its calls come to. -/
structure Client where
  routingStatus : Except Exc RoutingStatus
  /-- For a tenant that is none. -/
  tenantRunning : Except Exc (Option ℕ)
  workerCount : Except Exc ℕ

def temporalUnreachable (name : String) (error : Exc) : Outcome name := .ok ⟨{
  name, status := .fail, detail := "Temporal Cloud unreachable: " ++ error.repr
  remediation := "check TEMPORAL_ADDRESS/TEMPORAL_NAMESPACE/TEMPORAL_CLOUD_API_KEY in .env, and that the Temporal " ++
    "Cloud API key itself hasn't expired (independent of AWS SSO)" }, rfl⟩

def assertionError : Exc := ⟨"", "AssertionError()"⟩

/-- `if client is None: assert error is not None; return _temporal_unreachable(..)`. -/
def withClient {name : String} (client : Option Client) (error : Option Exc) (f : Client → Outcome name) : Outcome name :=
  match client, error with
  | some client, _ => f client
  | none, some error => temporalUnreachable name error
  | none, none => .error assertionError

/-- `assert routing is not None`. -/
def withRouting {name : String} (routing : Option RoutingStatus) (f : RoutingStatus → Outcome name) : Outcome name :=
  match routing with
  | some routing => f routing
  | none => .error assertionError

def checkTemporalReachable (client : Option Client) (error : Option Exc) : Outcome "Temporal Cloud" :=
  withClient client error fun client => do
    match ← client.tenantRunning with
    | none => .ok ⟨{
        name := "Temporal Cloud", status := .fail
        detail := "reachable, but the TenantId custom search attribute is not registered on this namespace"
        remediation := "add it — see docs/AWS_SETUP.md's 'TenantId custom search attribute' entry" }, rfl⟩
    | some _ => .ok ⟨{
        name := "Temporal Cloud", status := .pass, detail := "reachable; TenantId search attribute registered" }, rfl⟩

def deploymentName : String := "agent-control-plane"

def checkWorkerVersion (client : Option Client) (error : Option Exc) (settings : Settings)
    (routing : Option RoutingStatus) : Outcome "Worker deployment version" :=
  withClient client error fun _ => withRouting routing fun routing =>
    let expected := deploymentName ++ "." ++ settings.buildId
    if routing.currentVersion ≠ expected then .ok ⟨{
      name := "Worker deployment version", status := .fail
      detail := "current version is " ++ pyRepr routing.currentVersion ++ ", expected " ++ pyRepr expected ++
        " (BUILD_ID=" ++ settings.buildId ++ ")"
      remediation := "run `temporal worker deployment set-current-version --deployment-name " ++ deploymentName ++
        " --build-id " ++ settings.buildId ++ "` — until this matches, new workflow starts get NO task and sit at " ++
        "WorkflowTaskScheduled forever with no error anywhere (CLAUDE.md §4)" }, rfl⟩
    else .ok ⟨{
      name := "Worker deployment version", status := .pass
      detail := "current version is " ++ routing.currentVersion }, rfl⟩

def checkPollerCount (client : Option Client) (error : Option Exc) (settings : Settings) : Outcome "Task queue pollers" :=
  withClient client error fun client => do
    let count ← client.workerCount
    if count = 0 then .ok ⟨{
      name := "Task queue pollers", status := .fail
      detail := "no worker polling task queue " ++ pyRepr settings.taskQueue, remediation := "start `make worker`" }, rfl⟩
    else if count > 1 then .ok ⟨{
      name := "Task queue pollers", status := .warn
      detail := count.repr ++ " pollers seen on " ++ pyRepr settings.taskQueue ++ " — describe_task_queue reports " ++
        "recently-seen pollers, so a just-restarted worker can legitimately show a stale extra for a few minutes"
      remediation := "if this doesn't drop to 1 within ~5 minutes, check for a leftover worker process (E7.1)" }, rfl⟩
    else .ok ⟨{
      name := "Task queue pollers", status := .pass, detail := "1 poller on " ++ pyRepr settings.taskQueue }, rfl⟩

def checkDemoRamp (client : Option Client) (error : Option Exc) (routing : Option RoutingStatus) :
    Outcome "Demo state: ramp" :=
  withClient client error fun _ => withRouting routing fun routing =>
    if routing.rampingVersion ≠ "" ∨ floatValue routing.rampingPercentage ≠ .fin 0 then .ok ⟨{
      name := "Demo state: ramp", status := .fail
      detail := "active ramp to " ++ pyRepr routing.rampingVersion ++ " at " ++
        pyStr (.float routing.rampingPercentage) ++ "%"
      remediation := "run `make demo-reset` (or `dos demo ramp --version <build> --percent 100`) to clear it before " ++
        "starting proof 2 from a clean state" }, rfl⟩
    else .ok ⟨{ name := "Demo state: ramp", status := .pass, detail := "no active ramp" }, rfl⟩

/-! ## The run -/

/-- The other checks, of the settings where they take them. -/
structure Others where
  awsCredentials : Settings → Outcome "AWS credentials"
  dynamodb : Settings → Outcome "DynamoDB"
  mockoon : Settings → Outcome "Mockoon"
  bedrockModels : Settings → Outcome "Bedrock models"
  bedrockGuardrail : Settings → Outcome "Bedrock guardrail"
  agentcoreMemory : Settings → Outcome "AgentCore Memory"
  agentcoreGateway : Settings → Outcome "AgentCore Gateway"
  agentcoreRuntime : Settings → Outcome "AgentCore Runtime"
  s3 : Settings → Outcome "S3 bucket"
  api : Settings → Outcome "API"
  ui : Outcome "UI dev server"
  demoFairness : Outcome "Demo state: fairness"
  demoKillSwitch : Outcome "Demo state: kill switch"
  demoPaymentCounter : Settings → Outcome "Demo state: payment counter"
  demoSeededMemory : Outcome "Demo state: seeded memory"

/-- What a run of the script meets. -/
structure World where
  /-- The variables, of the environment and of `.env`, by their fields. -/
  env : String → Option String
  /-- The ValidationError of the fields in error. -/
  validationError : List String → Exc
  connect : Except Exc Client
  others : Others

/-- What the checks of Temporal share: a client or an error, and what routing
there is. -/
structure Shared where
  client : Option Client
  error : Option Exc
  routing : Option RoutingStatus

/-- `_connect_temporal()`, and the routing status of the client. -/
def World.shared (w : World) : Shared :=
  match w.connect with
  | .error e => ⟨none, some e, none⟩
  | .ok client =>
    match client.routingStatus with
    | .error e => ⟨none, some e, none⟩
    | .ok routing => ⟨some client, none, some routing⟩

section

variable [Pydantic]

/-- `Settings()`. -/
def World.settings (w : World) : Except Exc Settings := (Settings.load w.env).mapError w.validationError

def World.checks (w : World) (settings : Settings) : List Check :=
  let shared := w.shared
  [⟨_, checkEnv w.settings⟩,
    ⟨_, w.others.awsCredentials settings⟩,
    ⟨_, w.others.dynamodb settings⟩,
    ⟨_, checkTemporalReachable shared.client shared.error⟩,
    ⟨_, checkWorkerVersion shared.client shared.error settings shared.routing⟩,
    ⟨_, checkPollerCount shared.client shared.error settings⟩,
    ⟨_, w.others.mockoon settings⟩,
    ⟨_, w.others.bedrockModels settings⟩,
    ⟨_, w.others.bedrockGuardrail settings⟩,
    ⟨_, w.others.agentcoreMemory settings⟩,
    ⟨_, w.others.agentcoreGateway settings⟩,
    ⟨_, w.others.agentcoreRuntime settings⟩,
    ⟨_, w.others.s3 settings⟩,
    ⟨_, w.others.api settings⟩,
    ⟨_, w.others.ui⟩,
    ⟨_, w.others.demoFairness⟩,
    ⟨_, w.others.demoKillSwitch⟩,
    ⟨_, checkDemoRamp shared.client shared.error shared.routing⟩,
    ⟨_, w.others.demoPaymentCounter settings⟩,
    ⟨_, w.others.demoSeededMemory⟩]

/-- The line of the totals. -/
def totals (results : List CheckResult) : String :=
  let failCount := results.countP (·.status = .fail)
  let warnCount := results.countP (·.status = .warn)
  let okCount := results.length - failCount - warnCount
  "\n" ++ results.length.repr ++ " checks: " ++ okCount.repr ++ " PASS, " ++ warnCount.repr ++ " WARN, " ++
    failCount.repr ++ " FAIL"

/-- What is printed, and the exit code; or what is raised, with nothing
printed. -/
def main (w : World) : Except Exc (List String × ℕ) := do
  let settings ← w.settings
  let results := (w.checks settings).map guarded
  return (results.map CheckResult.render ++ [totals results],
    if results.countP (·.status = .fail) ≠ 0 then 1 else 0)

/-! ## What is reported -/

def names : List String :=
  [".env", "AWS credentials", "DynamoDB", "Temporal Cloud", "Worker deployment version", "Task queue pollers", "Mockoon",
    "Bedrock models", "Bedrock guardrail", "AgentCore Memory", "AgentCore Gateway", "AgentCore Runtime", "S3 bucket", "API",
    "UI dev server", "Demo state: fairness", "Demo state: kill switch", "Demo state: ramp", "Demo state: payment counter",
    "Demo state: seeded memory"]

/-- The result a check has in the report: its own, or a FAIL where it raised. -/
def Marks (check : Check) (result : CheckResult) : Prop :=
  match check.run with
  | .ok own => result = own.val
  | .error _ => result.name = check.name ∧ result.status = .fail

/-- One result for every check is printed, and the exit code is 1 exactly for a
FAIL among them. -/
structure Reported (checks : List Check) (results : List CheckResult) (printed : List String) (exitCode : ℕ) : Prop where
  names : results.map CheckResult.name = names
  marks : List.Forall₂ Marks checks results
  printed : printed = results.map CheckResult.render ++ [totals results]
  exitCode : exitCode = 1 ↔ ∃ result ∈ results, result.status = .fail

def Reports (w : World) : Prop :=
  ∃ settings printed exitCode results, w.settings = .ok settings ∧ main w = .ok (printed, exitCode) ∧
    Reported (w.checks settings) results printed exitCode

variable {w : World} {settings : Settings}

omit [Pydantic] in
theorem guarded_name (check : Check) : (guarded check).name = check.name := by
  unfold guarded
  cases check.run with
  | ok result => exact result.property
  | error e => rfl

omit [Pydantic] in
theorem guarded_marks (check : Check) : Marks check (guarded check) := by
  unfold Marks guarded
  cases check.run with
  | ok result => rfl
  | error e => exact ⟨rfl, rfl⟩

theorem settings_ok : (∃ settings, w.settings = .ok settings) ↔ Settings.Loads w.env := by
  rw [← Settings.load_ok, World.settings]
  cases Settings.load w.env with
  | ok settings => exact iff_of_true ⟨settings, rfl⟩ ⟨settings, rfl⟩
  | error invalid => exact iff_of_false (fun ⟨_, h⟩ => by cases h) fun ⟨_, h⟩ => by cases h

theorem main_eq (h : w.settings = .ok settings) : main w =
    .ok (((w.checks settings).map guarded).map CheckResult.render ++ [totals ((w.checks settings).map guarded)],
      if ((w.checks settings).map guarded).countP (·.status = .fail) ≠ 0 then 1 else 0) := by
  rw [main, h]
  rfl

/-- With the settings there, whatever the rest of the world is. -/
theorem reported (h : w.settings = .ok settings) : Reports w := by
  refine ⟨settings, _, _, (w.checks settings).map guarded, h, main_eq h, ?_, ?_, rfl, ?_⟩
  · rw [List.map_map, show CheckResult.name ∘ guarded = Check.name from funext guarded_name]
    rfl
  · exact List.forall₂_map_right_iff.mpr (List.forall₂_same.mpr fun check _ => guarded_marks check)
  · rw [ite_eq_left_iff, not_not]
    simp [List.countP_eq_zero]

/-- **Preflight.** A run prints one result for every check, a FAIL for one that
raises, and exits with 1 exactly for a FAIL, if and only if every field of the
settings takes what its variable has. -/
theorem preflight_reports_iff (w : World) : Reports w ↔ Settings.Loads w.env :=
  ⟨fun ⟨settings, _, _, _, h, _⟩ => settings_ok.mp ⟨settings, h⟩, fun h => (settings_ok.mpr h).elim fun _ => reported⟩

end

/-! ## No settings -/

/-- Nothing answers. -/
def downOthers : Others :=
  let down : Exc := ⟨"connection refused", "ConnectError('connection refused')"⟩
  ⟨fun _ => .error down, fun _ => .error down, fun _ => .error down, fun _ => .error down, fun _ => .error down,
    fun _ => .error down, fun _ => .error down, fun _ => .error down, fun _ => .error down, fun _ => .error down,
    .error down, .error down, .error down, fun _ => .error down, .error down⟩

/-- No variable is set. -/
def unset : World where
  env _ := none
  validationError _ := ⟨"Field required", "ValidationError()"⟩
  connect := .error ⟨"Field required", "ValidationError()"⟩
  others := downOthers

/-- Nothing is printed, where the settings are missing. -/
theorem preflight_unset :
    letI := digits
    main unset = .error (unset.validationError []) ∧ ¬ Reports unset := by
  let _ := digits
  have hsettings : unset.settings = .error (unset.validationError []) := by rfl
  refine ⟨by rw [main, hsettings]; rfl, fun ⟨settings, _, _, _, h, _⟩ => ?_⟩
  rw [hsettings] at h
  cases h

end Preflight

end ControlPlane
