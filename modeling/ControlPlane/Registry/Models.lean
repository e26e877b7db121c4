import Mathlib.Data.List.Sort
import ControlPlane.Python

/-!
# The registry's models

The records of `app/registry/models.py`: each one's fields, the dict it dumps
to (`modelDump`) and how it is built from a dict (`construct`: every required
field present, every value of a type pydantic's lax mode takes for its
field). What pydantic reads from a string in a number's place is left to the
`Pydantic` it runs with.

The approval policy is here too: the search for a field in a tool's input
(`resolveField`) and the comparison (`ApprovalPolicy.requiresApproval`).
-/

namespace ControlPlane

/-- What pydantic reads from a string where it wants a number. -/
class Pydantic where
  parseFloat : String → Option PyFloat
  parseInt : String → Option ℤ

/-- Numbers written in digits alone, which pydantic reads as they are. -/
@[reducible] def digits : Pydantic :=
  let read : String → Option ℤ := fun s =>
    if s = "" then none else (takeDigits s.toList.length 0 s.toList).map fun n => n.1
  ⟨fun s => read s >>= floatOfInt, read⟩

/-! ## Fields -/

def asStr : Value → Option String
  | .str s => some s
  | _ => none

/-- A bool field: rows hold a flag as a bool. -/
def asBool : Value → Option Bool
  | .bool b => some b
  | _ => none

def asDict : Value → Option Attrs
  | .dict kvs => some kvs
  | _ => none

/-- A float field, in lax mode. -/
def asFloat [Pydantic] : Value → Option PyFloat
  | .float x => some x
  | .int n => floatOfInt n
  | .bool b => floatOfInt (if b then 1 else 0)
  | .str s => Pydantic.parseFloat s
  | _ => none

/-- An int field, in lax mode: a float must be integral, and an i64. -/
def asInt [Pydantic] : Value → Option ℤ
  | .int n => some n
  | .float (.fin d) => if d.val.den = 1 ∧ d.val.num.natAbs < 2 ^ 63 then some d.val.num else none
  | .bool b => some (if b then 1 else 0)
  | .str s => Pydantic.parseInt s
  | _ => none

def asStrList : Value → Option (List String)
  | .list xs => xs.mapM asStr
  | _ => none

def asStrDict : Value → Option (List (String × String))
  | .dict kvs => kvs.mapM fun kv => (asStr kv.2).map fun s => (kv.1, s)
  | _ => none

/-- A field that may be None. -/
def asOption {α : Type} (f : Value → Option α) : Value → Option (Option α)
  | .null => some none
  | v => (f v).map some

/-- A required field. -/
def field {α : Type} (kwargs : Attrs) (name : String) (f : Value → Option α) : Option α :=
  kwargs.lookup name >>= f

/-- A field with a default. -/
def fieldD {α : Type} (kwargs : Attrs) (name : String) (default : α) (f : Value → Option α) : Option α :=
  match kwargs.lookup name with
  | none => some default
  | some v => f v

/-- A model from keyword arguments: a ValidationError names the required
fields that are missing, or none where a value does not fit its field. -/
def construct {α : Type} (required : List String) (build : Attrs → Option α) (kwargs : Attrs) :
    Except Raised α :=
  match required.filter fun name => (kwargs.lookup name).isNone with
  | [] =>
    match build kwargs with
    | some a => .ok a
    | none => .error (.validationError [])
  | missing => .error (.validationError missing)

/-- The required fields whose lack ended a call, if that is what did. -/
def missing {α : Type} : Except Raised α → List String
  | .error (.validationError fields) => fields
  | _ => []

/-- A dict that has every required field is not rejected for a missing one. -/
theorem missing_construct {α : Type} {required : List String} {build : Attrs → Option α} {kwargs : Attrs}
    (h : ∀ name ∈ required, (kwargs.lookup name).isSome) : missing (construct required build kwargs) = [] := by
  have hf : (required.filter fun name => (kwargs.lookup name).isNone) = [] := by
    refine List.filter_eq_nil_iff.mpr fun name hn => ?_
    rw [Option.isNone_iff_eq_none]
    exact fun e => by simpa [e] using h name hn
  unfold construct
  rw [hf]
  cases build kwargs with
  | some a => rfl
  | none => rfl

/-! ## Tenants -/

inductive TenantTier
  | platinum
  | standard
  | free
  deriving DecidableEq

namespace TenantTier

def value : TenantTier → String
  | platinum => "platinum"
  | standard => "standard"
  | free => "free"

def ofValue : Value → Option TenantTier
  | .str s => [platinum, standard, free].find? fun t => t.value = s
  | _ => none

end TenantTier

structure Tenant where
  tenantId : String
  name : String
  tier : TenantTier
  priorityKey : ℤ
  fairnessWeight : PyFloat
  memoryNamespace : String
  s3Prefix : String
  installedAgentIds : List String := []

namespace Tenant

def required : List String :=
  ["tenant_id", "name", "tier", "priority_key", "fairness_weight", "memory_namespace", "s3_prefix"]

def modelDump (t : Tenant) : Attrs :=
  [("tenant_id", .str t.tenantId), ("name", .str t.name), ("tier", .str t.tier.value),
    ("priority_key", .int t.priorityKey), ("fairness_weight", .float t.fairnessWeight),
    ("memory_namespace", .str t.memoryNamespace), ("s3_prefix", .str t.s3Prefix),
    ("installed_agent_ids", .list (t.installedAgentIds.map .str))]

def ofKwargs [Pydantic] : Attrs → Except Raised Tenant :=
  construct required fun kw => do
    return {
      tenantId := ← field kw "tenant_id" asStr
      name := ← field kw "name" asStr
      tier := ← field kw "tier" TenantTier.ofValue
      priorityKey := ← field kw "priority_key" asInt
      fairnessWeight := ← field kw "fairness_weight" asFloat
      memoryNamespace := ← field kw "memory_namespace" asStr
      s3Prefix := ← field kw "s3_prefix" asStr
      installedAgentIds := ← fieldD kw "installed_agent_ids" [] asStrList }

end Tenant

/-! ## Approval policies -/

inductive ApprovalOperator
  | gt
  | gte
  | lt
  | lte
  | eq
  | ne
  deriving DecidableEq

namespace ApprovalOperator

def value : ApprovalOperator → String
  | gt => "gt"
  | gte => "gte"
  | lt => "lt"
  | lte => "lte"
  | eq => "eq"
  | ne => "ne"

def ofValue : Value → Option ApprovalOperator
  | .str s => [gt, gte, lt, lte, eq, ne].find? fun o => o.value = s
  | _ => none

/-- `actual <op> value`, from how the two compare. -/
def holds : ApprovalOperator → Option Ordering → Bool
  | gt, c => c = some .gt
  | gte, c => c = some .gt || c = some .eq
  | lt, c => c = some .lt
  | lte, c => c = some .lt || c = some .eq
  | eq, c => c = some .eq
  | ne, c => c ≠ some .eq

end ApprovalOperator

/-- What the search of one dict for a bare name gives: its own item, or else
the first of the nested dicts' findings (`hits`), by sorted key, that is not
None. -/
def pickField (field : String) (toolInput hits : Attrs) : Value :=
  match toolInput.lookup field with
  | some v => v
  | none =>
    match (hits.insertionSort fun a b => a.1 ≤ b.1).find? fun hit => !hit.2.isNull with
    | some hit => hit.2
    | none => .null

mutual

/-- What the search finds in a value, if it is a dict. -/
def nestedHit (field : String) : Value → Option Value
  | .dict nested => some (pickField field nested (nestedHits field nested))
  | _ => none

/-- What it finds in each nested dict, under its key. -/
def nestedHits (field : String) : Attrs → Attrs
  | [] => []
  | (key, v) :: rest =>
    match nestedHit field v with
    | some hit => (key, hit) :: nestedHits field rest
    | none => nestedHits field rest

end

/-- The value at a dotted path, or None. -/
def followPath : List String → Value → Value
  | [], current => current
  | part :: parts, .dict kvs =>
    match kvs.lookup part with
    | some v => followPath parts v
    | none => .null
  | _ :: _, _ => .null

/-- `field.split(".")`. -/
def splitDots (field : String) : List String := (field.toList.splitOn '.').map String.ofList

def resolveField (toolInput : Attrs) (field : String) : Value :=
  if '.' ∈ field.toList then followPath (splitDots field) (.dict toolInput)
  else pickField field toolInput (nestedHits field toolInput)

structure ApprovalPolicy where
  tool : String
  field : String
  operator : ApprovalOperator
  value : PyFloat
  deriving DecidableEq

namespace ApprovalPolicy

def required : List String := ["tool", "field", "operator", "value"]

def modelDump (p : ApprovalPolicy) : Attrs :=
  [("tool", .str p.tool), ("field", .str p.field), ("operator", .str p.operator.value),
    ("value", .float p.value)]

def ofKwargs [Pydantic] : Attrs → Except Raised ApprovalPolicy :=
  construct required fun kw => do
    return {
      tool := ← ControlPlane.field kw "tool" asStr
      field := ← ControlPlane.field kw "field" asStr
      operator := ← ControlPlane.field kw "operator" ApprovalOperator.ofValue
      value := ← ControlPlane.field kw "value" asFloat }

def ofValue [Pydantic] : Value → Option ApprovalPolicy
  | .dict kvs => (ofKwargs kvs).toOption
  | _ => none

def requiresApproval (p : ApprovalPolicy) (toolName : String) (toolInput : Attrs) : Bool :=
  if toolName ≠ p.tool then false
  else
    match (resolveField toolInput p.field).number? with
    | none => false
    | some actual => p.operator.holds (actual.cmp (floatValue p.value))

end ApprovalPolicy

/-! ## Agent packages -/

inductive AgentTier
  | noCode
  | customTools
  | hosted
  deriving DecidableEq

namespace AgentTier

def value : AgentTier → String
  | noCode => "1"
  | customTools => "2"
  | hosted => "3"

def ofValue : Value → Option AgentTier
  | .str s => [noCode, customTools, hosted].find? fun t => t.value = s
  | _ => none

end AgentTier

structure AgentPackage where
  agentId : String
  version : ℤ
  name : String
  tier : AgentTier
  model : String
  systemPrompt : String
  parameters : List (String × String) := []
  tools : List String := []
  mcpServers : List String := []
  approvalPolicy : Option ApprovalPolicy := none
  guardrailArn : Option String := none
  outputModel : Option String := none
  runtimeArn : Option String := none

/-- A field of type `str | None`. -/
def dumpOption (s : Option String) : Value := s.elim .null .str

namespace AgentPackage

def required : List String := ["agent_id", "version", "name", "tier", "model", "system_prompt"]

def modelDump (p : AgentPackage) : Attrs :=
  [("agent_id", .str p.agentId), ("version", .int p.version), ("name", .str p.name),
    ("tier", .str p.tier.value), ("model", .str p.model), ("system_prompt", .str p.systemPrompt),
    ("parameters", .dict (p.parameters.map fun kv => (kv.1, .str kv.2))),
    ("tools", .list (p.tools.map .str)), ("mcp_servers", .list (p.mcpServers.map .str)),
    ("approval_policy", p.approvalPolicy.elim .null fun a => .dict a.modelDump),
    ("guardrail_arn", dumpOption p.guardrailArn), ("output_model", dumpOption p.outputModel),
    ("runtime_arn", dumpOption p.runtimeArn)]

def ofKwargs [Pydantic] : Attrs → Except Raised AgentPackage :=
  construct required fun kw => do
    return {
      agentId := ← field kw "agent_id" asStr
      version := ← field kw "version" asInt
      name := ← field kw "name" asStr
      tier := ← field kw "tier" AgentTier.ofValue
      model := ← field kw "model" asStr
      systemPrompt := ← field kw "system_prompt" asStr
      parameters := ← fieldD kw "parameters" [] asStrDict
      tools := ← fieldD kw "tools" [] asStrList
      mcpServers := ← fieldD kw "mcp_servers" [] asStrList
      approvalPolicy := ← fieldD kw "approval_policy" none (asOption ApprovalPolicy.ofValue)
      guardrailArn := ← fieldD kw "guardrail_arn" none (asOption asStr)
      outputModel := ← fieldD kw "output_model" none (asOption asStr)
      runtimeArn := ← fieldD kw "runtime_arn" none (asOption asStr) }

end AgentPackage

/-! ## Jobs and their results -/

inductive JobStatus
  | queued
  | running
  | completed
  | failed
  deriving DecidableEq

namespace JobStatus

def value : JobStatus → String
  | queued => "queued"
  | running => "running"
  | completed => "completed"
  | failed => "failed"

def ofValue : Value → Option JobStatus
  | .str s => [queued, running, completed, failed].find? fun t => t.value = s
  | _ => none

end JobStatus

structure Job where
  jobId : String
  tenantId : String
  agentId : String
  workflowId : String
  status : JobStatus
  priorityKey : ℤ
  createdAt : String
  startedAt : Option String := none
  completedAt : Option String := none

namespace Job

def required : List String :=
  ["job_id", "tenant_id", "agent_id", "workflow_id", "status", "priority_key", "created_at"]

def modelDump (j : Job) : Attrs :=
  [("job_id", .str j.jobId), ("tenant_id", .str j.tenantId), ("agent_id", .str j.agentId),
    ("workflow_id", .str j.workflowId), ("status", .str j.status.value),
    ("priority_key", .int j.priorityKey), ("created_at", .str j.createdAt),
    ("started_at", dumpOption j.startedAt), ("completed_at", dumpOption j.completedAt)]

def ofKwargs [Pydantic] : Attrs → Except Raised Job :=
  construct required fun kw => do
    return {
      jobId := ← field kw "job_id" asStr
      tenantId := ← field kw "tenant_id" asStr
      agentId := ← field kw "agent_id" asStr
      workflowId := ← field kw "workflow_id" asStr
      status := ← field kw "status" JobStatus.ofValue
      priorityKey := ← field kw "priority_key" asInt
      createdAt := ← field kw "created_at" asStr
      startedAt := ← fieldD kw "started_at" none (asOption asStr)
      completedAt := ← fieldD kw "completed_at" none (asOption asStr) }

end Job

structure JobResult where
  jobId : String
  output : Attrs
  outputRef : Option String := none
  completedAt : String

namespace JobResult

def required : List String := ["job_id", "output", "completed_at"]

def modelDump (r : JobResult) : Attrs :=
  [("job_id", .str r.jobId), ("output", .dict r.output), ("output_ref", dumpOption r.outputRef),
    ("completed_at", .str r.completedAt)]

def ofKwargs : Attrs → Except Raised JobResult :=
  construct required fun kw => do
    return {
      jobId := ← field kw "job_id" asStr
      output := ← field kw "output" asDict
      outputRef := ← fieldD kw "output_ref" none (asOption asStr)
      completedAt := ← field kw "completed_at" asStr }

end JobResult

/-! ## Idempotency records and settings -/

structure IdempotencyRecord where
  key : String
  status : String
  result : Option Attrs := none
  createdAt : String

namespace IdempotencyRecord

def required : List String := ["key", "status", "created_at"]

def ofKwargs : Attrs → Except Raised IdempotencyRecord :=
  construct required fun kw => do
    return {
      key := ← field kw "key" asStr
      status := ← field kw "status" asStr
      result := ← fieldD kw "result" none (asOption asDict)
      createdAt := ← field kw "created_at" asStr }

end IdempotencyRecord

/-- A setting with one flag. -/
def flagOfKwargs (name : String) (default : Bool) : Attrs → Except Raised Bool :=
  construct [] fun kw => fieldD kw name default asBool

structure FairnessSetting where
  enabled : Bool := true
  deriving DecidableEq

def FairnessSetting.modelDump (s : FairnessSetting) : Attrs := [("enabled", .bool s.enabled)]

def FairnessSetting.ofKwargs (kw : Attrs) : Except Raised FairnessSetting :=
  (flagOfKwargs "enabled" true kw).map FairnessSetting.mk

structure KillSwitch where
  armed : Bool := false
  deriving DecidableEq

def KillSwitch.modelDump (s : KillSwitch) : Attrs := [("armed", .bool s.armed)]

def KillSwitch.ofKwargs (kw : Attrs) : Except Raised KillSwitch :=
  (flagOfKwargs "armed" false kw).map KillSwitch.mk

end ControlPlane
