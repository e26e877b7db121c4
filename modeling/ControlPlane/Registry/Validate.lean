import ControlPlane.Registry.Manifest

/-!
# Validating a package

`app/registry/validate.py`: the seven checks of a manifest and its SOP, each
with the problems it reports (`validate`), over the catalogs a job resolves
names against. `validate_empty_iff`: a package has no problem exactly if it is
`Valid`, check by check.
-/

namespace ControlPlane

/-! ## Catalogs -/

structure ToolSpec where
  /-- Checked against the payment guardrail before it runs. -/
  guarded : Bool := false

/-- `TOOL_CATALOG`; a tool's activity goes by its name. -/
def toolCatalog : List (String × ToolSpec) :=
  [("issue_payment", {}), ("fetch_dispute_evidence", {}), ("analyze_dispute_risk", {}),
    ("submit_dispute_response", { guarded := true }), ("investigate_fraud_swarm", {})]

/-- `GUARDED_TOOLS`. -/
def guardedTools : List String := (toolCatalog.filter fun entry => entry.2.guarded).map Prod.fst

/-- The names in `MCP_SERVER_CATALOG`. -/
def mcpServerCatalog : List String := ["vendor-directory"]

/-- The names in `OUTPUT_MODEL_CATALOG`. -/
def outputModelCatalog : List String := ["InvoiceDecision"]

/-- The names in `model_registry()`. -/
def modelRegistry : List String := ["bedrock-claude", "bedrock-nova"]

/-! ## Checks -/

/-- `sorted(names)`. -/
def sortedNames (names : List String) : List String := names.insertionSort (· ≤ ·)

/-- `', '.join(known) or 'none'`. -/
def knownNames (names : List String) : String :=
  let known := ", ".intercalate (sortedNames names)
  if known = "" then "none" else known

def checkModel (manifest : Manifest) : List String :=
  if manifest.model ∉ modelRegistry then
    ["model " ++ pyRepr manifest.model ++ " is not registered (known: " ++
      ", ".intercalate (sortedNames modelRegistry) ++ ")"]
  else []

/-- A problem for each name that is not in the catalog. -/
def notInCatalog (kind : String) (catalog names : List String) : List String :=
  (names.filter (· ∉ catalog)).map fun name =>
    kind ++ " " ++ pyRepr name ++ " is not in the catalog (known: " ++ knownNames catalog ++ ")"

def checkTools (manifest : Manifest) : List String := notInCatalog "tool" (toolCatalog.map Prod.fst) manifest.tools

def checkMcpServers (manifest : Manifest) : List String :=
  notInCatalog "mcp_server" mcpServerCatalog manifest.mcpServers

def checkOutputModel (manifest : Manifest) : List String :=
  notInCatalog "output_model" outputModelCatalog manifest.outputModel.toList

def runtimePlaceholders : List String := ["tenant_id", "agent_id", "agent_version", "job_id"]

def checkPlaceholders (manifest : Manifest) (sop : String) : List String :=
  let available := runtimePlaceholders ++ manifest.parameters.map Prod.fst
  let unresolved := sortedNames ((placeholders sop).filter (· ∉ available))
  let unused := sortedNames ((manifest.parameters.map Prod.fst).dedup.filter (· ∉ placeholders sop))
  (unresolved.map fun name =>
    "procedure.sop.md uses \x7b\x7b" ++ name ++ "\x7d\x7d but it is not declared under parameters:") ++
  (unused.map fun name => "parameter " ++ pyRepr name ++ " is declared but never used in procedure.sop.md")

def checkApprovalPolicy (manifest : Manifest) : List String :=
  match manifest.approvalPolicy with
  | none => []
  | some policy =>
    if policy.tool ∉ manifest.tools then
      ["approval_policy targets tool " ++ pyRepr policy.tool ++ ", which this agent does not declare"]
    else []

/-- What a hosted agent would never see. -/
def checkHosted (manifest : Manifest) : List String :=
  if manifest.tier ≠ AgentTier.hosted.value then []
  else
    (([("tools", manifest.tools), ("mcp_servers", manifest.mcpServers)].filter fun d => !d.2.isEmpty).map fun d =>
      "tier 3 (hosted) agent declares " ++ d.1 ++ ", which the hosted agent never sees — " ++
        "its tools live on the far side of the runtime boundary") ++
    (if manifest.approvalPolicy.isSome then
      ["tier 3 (hosted) agent declares an approval_policy, but ApprovalGate can only " ++
        "gate tool calls this control plane dispatches — a hosted agent's calls are " ++
        "invisible to it and would run ungated"]
    else []) ++
    (if manifest.outputModel.isSome then
      ["tier 3 (hosted) agent declares an output_model, but structured output is a " ++
        "Strands agent setting and this control plane does not construct that agent"]
    else [])

/-- The problems of a loaded package. -/
def problems (manifest : Manifest) (sop : String) : List String :=
  checkModel manifest ++ checkTools manifest ++ checkMcpServers manifest ++ checkOutputModel manifest ++
    checkPlaceholders manifest sop ++ checkApprovalPolicy manifest ++ checkHosted manifest ++
    if sop.toList.all isSpace then ["procedure.sop.md is empty — it becomes the system prompt"] else []

/-- The problems of a package on disk. Empty means the package is publishable. -/
def validate [Pydantic] [Yaml] (disk : Disk) (agentId : String) : Except LoadError (List String) :=
  match loadManifest disk agentId with
  | .error (.manifestError message) => .ok [message]
  | .error e => .error e
  | .ok (manifest, sop) => .ok (problems manifest sop)

/-! ## What the checks leave -/

/-- What a package without problems has. -/
structure Valid (manifest : Manifest) (sop : String) : Prop where
  model : manifest.model ∈ modelRegistry
  tools : ∀ tool ∈ manifest.tools, tool ∈ toolCatalog.map Prod.fst
  mcpServers : ∀ server ∈ manifest.mcpServers, server ∈ mcpServerCatalog
  outputModel : ∀ name, manifest.outputModel = some name → name ∈ outputModelCatalog
  /-- Every placeholder resolves. -/
  resolved : ∀ name ∈ placeholders sop, name ∈ runtimePlaceholders ∨ name ∈ manifest.parameters.map Prod.fst
  /-- Every parameter is used. -/
  used : ∀ name ∈ manifest.parameters.map Prod.fst, name ∈ placeholders sop
  policy : ∀ policy, manifest.approvalPolicy = some policy → policy.tool ∈ manifest.tools
  hosted : manifest.tier = AgentTier.hosted.value →
    manifest.tools = [] ∧ manifest.mcpServers = [] ∧ manifest.approvalPolicy = none ∧ manifest.outputModel = none
  sop : ∃ c ∈ sop.toList, isSpace c = false

variable {manifest : Manifest} {sop : String}

theorem notInCatalog_nil {kind : String} {catalog names : List String} :
    notInCatalog kind catalog names = [] ↔ ∀ name ∈ names, name ∈ catalog := by
  simp [notInCatalog]

theorem sortedNames_nil {names : List String} : sortedNames names = [] ↔ names = [] :=
  ⟨fun h => List.length_eq_zero_iff.mp ((List.length_insertionSort _ names).symm.trans (by
      rw [show names.insertionSort (· ≤ ·) = [] from h]; rfl)), fun h => by rw [h]; rfl⟩

theorem checkPlaceholders_nil : checkPlaceholders manifest sop = [] ↔
    (∀ name ∈ placeholders sop, name ∈ runtimePlaceholders ∨ name ∈ manifest.parameters.map Prod.fst) ∧
      ∀ name ∈ manifest.parameters.map Prod.fst, name ∈ placeholders sop := by
  simp only [checkPlaceholders, List.append_eq_nil_iff, List.map_eq_nil_iff, sortedNames_nil, List.filter_eq_nil_iff,
    List.mem_dedup, decide_eq_true_eq, not_not, List.mem_append]

theorem checkHosted_nil : checkHosted manifest = [] ↔ (manifest.tier = AgentTier.hosted.value →
    manifest.tools = [] ∧ manifest.mcpServers = [] ∧ manifest.approvalPolicy = none ∧ manifest.outputModel = none) := by
  by_cases ht : manifest.tier = AgentTier.hosted.value
  · have hne (xs : List String) : (!xs.isEmpty) = false ↔ xs = [] := by cases xs <;> simp
    unfold checkHosted
    rw [if_neg (not_not.mpr ht), List.append_eq_nil_iff, List.append_eq_nil_iff, List.map_eq_nil_iff,
      List.filter_eq_nil_iff]
    simp only [List.forall_mem_cons, Bool.not_eq_true, hne, ht, forall_const]
    cases manifest.approvalPolicy <;> cases manifest.outputModel <;> simp
  · simp only [checkHosted, ht, ne_eq, not_false_eq_true, if_true, false_implies]

/-- A package has no problem exactly if it is valid. -/
theorem problems_nil_iff : problems manifest sop = [] ↔ Valid manifest sop := by
  have hmodel : checkModel manifest = [] ↔ manifest.model ∈ modelRegistry := by simp [checkModel]
  have houtput : checkOutputModel manifest = [] ↔ ∀ name, manifest.outputModel = some name → name ∈ outputModelCatalog := by
    simp [checkOutputModel, notInCatalog_nil]
  have hpolicy : checkApprovalPolicy manifest = [] ↔
      ∀ policy, manifest.approvalPolicy = some policy → policy.tool ∈ manifest.tools := by
    unfold checkApprovalPolicy
    cases manifest.approvalPolicy <;> simp
  have hsop : (if sop.toList.all isSpace then ["procedure.sop.md is empty — it becomes the system prompt"] else []) = [] ↔
      ∃ c ∈ sop.toList, isSpace c = false := by
    simp
  simp only [problems, List.append_eq_nil_iff, hmodel, checkTools, checkMcpServers, notInCatalog_nil, houtput,
    checkPlaceholders_nil, hpolicy, checkHosted_nil, hsop]
  constructor
  · rintro ⟨⟨⟨⟨⟨⟨⟨h1, h2⟩, h3⟩, h4⟩, h5, h6⟩, h7⟩, h8⟩, h9⟩
    exact ⟨h1, h2, h3, h4, h5, h6, h7, h8, h9⟩
  · rintro ⟨h1, h2, h3, h4, h5, h6, h7, h8, h9⟩
    exact ⟨⟨⟨⟨⟨⟨⟨h1, h2⟩, h3⟩, h4⟩, h5, h6⟩, h7⟩, h8⟩, h9⟩

/-- What a package on disk that validates is loaded as. -/
theorem validate_nil [Pydantic] [Yaml] {disk : Disk} {agentId : String} (h : validate disk agentId = .ok []) :
    ∃ manifest sop, loadManifest disk agentId = .ok (manifest, sop) ∧ Valid manifest sop := by
  unfold validate at h
  split at h
  · cases h
  · cases h
  · rename_i manifest sop hl
    exact ⟨manifest, sop, hl, problems_nil_iff.mp (Except.ok.inj h)⟩

end ControlPlane
