import ControlPlane.Registry.Validate
import ControlPlane.Workflows.AgentJob
import ControlPlane.Workflows.Gates

/-!
# A run of a job

`AgentJobWorkflow.run` as a machine (`JobRun.step`): its activities come back
one by one, each with a result or with the ActivityError its retries ended in;
between the recall and the end the agent runs, on AgentCore's side
(`hosting`) or here, in the approval loop of `Session` (`native`). Signals
arrive at any time. What the run publishes is in `Session.events`.

* `jobRun_trace`: the events of a run that returns are a `Trace` of its lane,
  those of a run that raises are the beginning of one.
* `jobRun_bestEffort`: what becomes of the best-effort activities changes
  nothing a run says or does.
-/

namespace ControlPlane

open Machine

/-! ## The agent's setup -/

/-- What the native lane builds its agent with. -/
structure AgentSetup where
  model : String
  systemPrompt : String
  tools : List (String × ToolSpec)
  mcpServers : List String
  approvalPolicy : Option ApprovalPolicy
  outputModel : Option String

/-- An entry of a catalog, or the author's error. -/
def resolveName {α : Type} (catalog : String → Option α) (kind type agentId name : String) : Except Raised α :=
  match catalog name with
  | some a => .ok a
  | none => .error (.applicationError
      ("unknown " ++ kind ++ " " ++ pyRepr name ++ " declared by " ++ agentId) (some type) true)

def resolveTool (agentId : String) : String → Except Raised (String × ToolSpec) :=
  resolveName (fun name => (toolCatalog.lookup name).map fun spec => (name, spec)) "tool" "UnknownTool" agentId

def resolveMcpServer (agentId : String) : String → Except Raised String :=
  resolveName (fun name => mcpServerCatalog.find? (· = name)) "mcp_server" "UnknownMCPServer" agentId

def resolveOutputModel (agentId : String) : String → Except Raised String :=
  resolveName (fun name => outputModelCatalog.find? (· = name)) "output_model" "UnknownOutputModel" agentId

/-- The package's SOP for this job, and what its tenant did before. -/
def systemPrompt (job : AgentJobInput) (package : AgentPackage) (recalled : List String) : String :=
  let context := [("tenant_id", job.tenantId), ("agent_id", job.agentId),
    ("agent_version", toString job.agentVersion), ("job_id", job.jobId)] ++ package.parameters
  let prompt := renderSop package.systemPrompt context
  if recalled = [] then prompt
  else prompt ++ "\n\n## Recent history for this tenant\n" ++ "\n".intercalate (recalled.map ("- " ++ ·))

/-- What `_run_native` does before it calls the agent. -/
def agentSetup (job : AgentJobInput) (package : AgentPackage) (recalled : List String) : Except Raised AgentSetup := do
  let tools ← package.tools.mapM (resolveTool package.agentId)
  let mcpServers ← package.mcpServers.mapM (resolveMcpServer package.agentId)
  let outputModel ← match package.outputModel with
    | none => .ok none
    | some name => (resolveOutputModel package.agentId name).map some
  return {
    model := package.model
    systemPrompt := systemPrompt job package recalled
    tools
    mcpServers
    approvalPolicy := package.approvalPolicy
    outputModel }

/-! ## The hosted agent -/

/-- What AgentCore's runtime answers, with what `_extract` makes of its body. -/
structure HostedResponse where
  statusCode : Option ℤ
  answer : String

/-- The activity `invoke_hosted_agent`; without a response the request failed. -/
def invokeHostedAgent (runtimeArn : String) (response : Option HostedResponse) : Except Raised String :=
  if runtimeArn = "" then
    .error (.applicationError
      ("hosted agent has no runtime ARN — set AGENTCORE_RUNTIME_ENDPOINT or " ++
        "register the agent with a runtime_arn (docs/AWS_SETUP.md, E7.3)") (some "HostedRuntimeNotConfigured") true)
  else
    match response with
    | none => .error .requestError
    | some response =>
      match response.statusCode with
      | some status =>
        if 400 ≤ status then
          .error (.applicationError ("hosted agent returned status " ++ toString status) (some "HostedAgentRejected")
            (status < 500))
        else .ok response.answer
      | none => .ok response.answer

/-! ## Events -/

namespace UIEvent

def jobStarted (job : AgentJobInput) : UIEvent :=
  ⟨"job_started", [("agent_id", .str job.agentId), ("agent_version", .int job.agentVersion)]⟩

def memoryRecall (notes : List String) : UIEvent := ⟨"memory_recall", [("notes", .list (notes.map .str))]⟩

def toolCall (agentId : String) : UIEvent := ⟨"tool_call", [("tool", .str ("hosted:" ++ agentId))]⟩

def guardrail (tool : String) (verdict : GuardrailVerdict) : UIEvent :=
  ⟨"guardrail", [("tool", .str tool), ("blocked", .bool verdict.blocked), ("reason", dumpOption verdict.reason)]⟩

def approvalPending (pending : PendingApproval) : UIEvent :=
  ⟨"approval_pending", [("tool", .str pending.tool), ("tool_input", .dict pending.toolInput)]⟩

def approvalResumed (decision : String) : UIEvent := ⟨"approval_resumed", [("decision", .str decision)]⟩

def jobFinished (stopReason : String) : UIEvent := ⟨"job_finished", [("stop_reason", .str stopReason)]⟩

end UIEvent

/-! ## The run -/

structure JobOutcome where
  jobId : String
  agentId : String
  agentVersion : ℤ
  stopReason : String
  output : String

/-- What ended a run that raised. -/
inductive Failure
  /-- An activity, with what its last attempt raised. -/
  | activity (cause : Raised)
  /-- The workflow's code. -/
  | application (e : Raised)
  /-- The agent, or its interrupt's reason. -/
  | session

inductive JobStage
  | marking
  | resolving
  | recalling (package : AgentPackage)
  | hosting (package : AgentPackage)
  | native (package : AgentPackage) (setup : AgentSetup)
  | recording (stopReason output summary : String)
  | sleeping (stopReason output : String)
  | returned (outcome : JobOutcome)
  | raised (failure : Failure)

structure JobRun where
  stage : JobStage := .marking
  session : Session := {}

/-- What comes next. -/
inductive JobAction
  /-- A signal, a return or an exception of the agent, or a wait's release. -/
  | session (a : Action)
  | marked (result : Except Raised Unit)
  | resolved (result : Except Raised AgentPackage)
  | recalled (result : Except Raised (List String))
  | invoked (response : Option HostedResponse)
  /-- A guarded tool is about to be called. -/
  | guardrail (tool : String) (verdict : Except Raised GuardrailVerdict)
  | recorded (result : Except Raised Unit)
  | slept

namespace JobRun

def publish (s : JobRun) (event : UIEvent) : JobRun :=
  { s with session := { s.session with events := s.session.events ++ [event] } }

def goto (s : JobRun) (stage : JobStage) : JobRun := { s with stage }

/-- Both lanes end here. -/
def finish (job : AgentJobInput) (s : JobRun) (stopReason output : String) : JobRun :=
  let summary := job.agentId ++ " v" ++ toString job.agentVersion ++ ": " ++ stopReason ++ " — " ++
    String.ofList (output.toList.take 200)
  (s.publish (.jobFinished stopReason)).goto (.recording stopReason output summary)

/-- The lane of the package's tier, up to its first wait. -/
def enterLane (job : AgentJobInput) (s : JobRun) (package : AgentPackage) (recalled : List String) : JobRun :=
  let s := if recalled = [] then s else s.publish (.memoryRecall recalled)
  if package.tier = .hosted then (s.publish (.toolCall package.agentId)).goto (.hosting package)
  else
    match agentSetup job package recalled with
    | .ok setup => s.goto (.native package setup)
    | .error e => s.goto (.raised (.application e))

/-- After a step of the approval loop. -/
def afterSession (job : AgentJobInput) (s : JobRun) (session : Session) : JobRun :=
  let s := { s with session }
  match session.phase with
  | .finished stopReason output => s.finish job stopReason output
  | .raised => s.goto (.raised .session)
  | _ => s

/-- Signals change nothing but the decisions. -/
def signal (s : JobRun) (interruptId decision : String) : JobRun :=
  { s with session := s.session.submitApproval interruptId decision }

/-- A guarded tool's verdict is published if there is one. -/
def onVerdict (s : JobRun) (tool : String) (verdict : Except Raised GuardrailVerdict) : JobRun :=
  match verdict with
  | .ok verdict => if verdict.evaluated then s.publish (.guardrail tool verdict) else s
  | .error _ => s

def step (job : AgentJobInput) (s : JobRun) : JobAction → Option JobRun
  | .session (.signal interruptId decision) => some (s.signal interruptId decision)
  | .session a =>
    match s.stage with
    | .native _ _ => (s.session.step a).map (s.afterSession job)
    | _ => none
  | .marked result =>
    match s.stage, result with
    | .marking, .ok () => some ((s.publish (.jobStarted job)).goto .resolving)
    -- an ActivityError is logged, and the job goes on
    | .marking, .error _ => some ((s.publish (.jobStarted job)).goto .resolving)
    | _, _ => none
  | .resolved result =>
    match s.stage, result with
    | .resolving, .ok package => some (s.goto (.recalling package))
    | .resolving, .error e => some (s.goto (.raised (.activity e)))
    | _, _ => none
  | .recalled result =>
    match s.stage, result with
    | .recalling package, .ok recalled => some (s.enterLane job package recalled)
    | .recalling package, .error _ => some (s.enterLane job package [])
    | _, _ => none
  | .invoked response =>
    match s.stage with
    | .hosting package =>
      match invokeHostedAgent (package.runtimeArn.getD "") response with
      | .ok output => some (s.finish job "end_turn" output)
      | .error e => some (s.goto (.raised (.activity e)))
    | _ => none
  | .guardrail tool verdict =>
    match s.stage, s.session.phase with
    | .native _ _, .invoking => if tool ∈ guardedTools then some (s.onVerdict tool verdict) else none
    | _, _ => none
  | .recorded result =>
    match s.stage, result with
    | .recording stopReason output _, .ok () => some (s.goto (.sleeping stopReason output))
    | .recording stopReason output _, .error _ => some (s.goto (.sleeping stopReason output))
    | _, _ => none
  | .slept =>
    match s.stage with
    | .sleeping stopReason output => some (s.goto (.returned
        { jobId := job.jobId, agentId := job.agentId, agentVersion := job.agentVersion, stopReason, output }))
    | _ => none

/-! ## What a step does -/

/-- The steps of a run. -/
inductive Steps (job : AgentJobInput) (s : JobRun) : JobAction → JobRun → Prop
  | signal (interruptId decision : String) :
    Steps job s (.session (.signal interruptId decision)) (s.signal interruptId decision)
  | session {a : Action} {package : AgentPackage} {setup : AgentSetup} {session : Session}
    (hp : s.stage = .native package setup) (hs : s.session.step a = some session) :
    Steps job s (.session a) (s.afterSession job session)
  | marked (result : Except Raised Unit) (hp : s.stage = .marking) :
    Steps job s (.marked result) ((s.publish (.jobStarted job)).goto .resolving)
  | resolved (package : AgentPackage) (hp : s.stage = .resolving) :
    Steps job s (.resolved (.ok package)) (s.goto (.recalling package))
  | unresolved (e : Raised) (hp : s.stage = .resolving) :
    Steps job s (.resolved (.error e)) (s.goto (.raised (.activity e)))
  | recalled (result : Except Raised (List String)) {package : AgentPackage} (hp : s.stage = .recalling package) :
    Steps job s (.recalled result) (s.enterLane job package (result.toOption.getD []))
  | invoked (response : Option HostedResponse) {package : AgentPackage} {output : String}
    (hp : s.stage = .hosting package) (ho : invokeHostedAgent (package.runtimeArn.getD "") response = .ok output) :
    Steps job s (.invoked response) (s.finish job "end_turn" output)
  | rejected (response : Option HostedResponse) {package : AgentPackage} {e : Raised}
    (hp : s.stage = .hosting package) (he : invokeHostedAgent (package.runtimeArn.getD "") response = .error e) :
    Steps job s (.invoked response) (s.goto (.raised (.activity e)))
  | guardrail (tool : String) (verdict : Except Raised GuardrailVerdict) {package : AgentPackage} {setup : AgentSetup}
    (hp : s.stage = .native package setup) (hi : s.session.phase = .invoking) :
    Steps job s (.guardrail tool verdict) (s.onVerdict tool verdict)
  | recorded (result : Except Raised Unit) {stopReason output summary : String}
    (hp : s.stage = .recording stopReason output summary) :
    Steps job s (.recorded result) (s.goto (.sleeping stopReason output))
  | slept {stopReason output : String} (hp : s.stage = .sleeping stopReason output) :
    Steps job s .slept (s.goto (.returned
      { jobId := job.jobId, agentId := job.agentId, agentVersion := job.agentVersion, stopReason, output }))

variable {job : AgentJobInput} {s s' : JobRun} {a : JobAction} {history : List JobAction}

theorem steps_of_step (hs : s.step job a = some s') : Steps job s a s' := by
  have hsession {a : Action} (hs : (match s.stage with
      | .native _ _ => (s.session.step a).map (s.afterSession job)
      | _ => none) = some s') : Steps job s (.session a) s' := by
    split at hs
    · rename_i hp
      obtain ⟨session, hstep, rfl⟩ := Option.map_eq_some_iff.mp hs
      exact .session hp hstep
    · cases hs
  cases a with
  | session a =>
    cases a with
    | signal interruptId decision => cases hs; exact .signal interruptId decision
    | agentReturns result => exact hsession hs
    | agentRaises => exact hsession hs
    | release => exact hsession hs
  | marked result =>
    simp only [step] at hs
    split at hs
    · rename_i hp
      cases hs
      exact .marked _ hp
    · rename_i hp
      cases hs
      exact .marked _ hp
    · cases hs
  | resolved result =>
    simp only [step] at hs
    split at hs
    · rename_i hp
      cases hs
      exact .resolved _ hp
    · rename_i hp
      cases hs
      exact .unresolved _ hp
    · cases hs
  | recalled result =>
    simp only [step] at hs
    split at hs
    · rename_i hp
      cases hs
      exact .recalled (.ok _) hp
    · rename_i hp
      cases hs
      exact .recalled (.error _) hp
    · cases hs
  | invoked response =>
    simp only [step] at hs
    split at hs
    · rename_i hp
      split at hs
      · rename_i ho
        cases hs
        exact .invoked _ hp ho
      · rename_i he
        cases hs
        exact .rejected _ hp he
    · cases hs
  | guardrail tool verdict =>
    simp only [step] at hs
    split at hs
    · rename_i hp hi
      split at hs
      · cases hs
        exact .guardrail tool verdict hp hi
      · cases hs
    · cases hs
  | recorded result =>
    simp only [step] at hs
    split at hs
    · rename_i hp
      cases hs
      exact .recorded _ hp
    · rename_i hp
      cases hs
      exact .recorded _ hp
    · cases hs
  | slept =>
    simp only [step] at hs
    split at hs
    · rename_i hp
      cases hs
      exact .slept hp
    · cases hs

end JobRun

/-! ## Traces -/

/-- What a run publishes before its lane. -/
inductive Opening (job : AgentJobInput) : List UIEvent → Prop
  | plain : Opening job [.jobStarted job]
  | recalled (notes : List String) (hn : notes ≠ []) : Opening job [.jobStarted job, .memoryRecall notes]

/-- Verdicts and approvals, each answered before anything else happens, with a
decision `decided` for its interrupt. -/
inductive Conversation (decided : String → String → Prop) : List UIEvent → Prop
  | nil : Conversation decided []
  | guardrail (tool : String) (verdict : GuardrailVerdict) {rest : List UIEvent} (hr : Conversation decided rest) :
    Conversation decided (.guardrail tool verdict :: rest)
  | approval {interrupt : Interrupt} {pending : PendingApproval} {decision : String} {rest : List UIEvent}
    (hp : PendingApproval.ofInterrupt interrupt = some pending) (hd : decided interrupt.id decision)
    (hr : Conversation decided rest) :
    Conversation decided (.approvalPending pending :: .approvalResumed decision :: rest)

/-- What a package's lane publishes. -/
inductive Lane (decided : String → String → Prop) (package : AgentPackage) : List UIEvent → Prop
  | hosted (ht : package.tier = .hosted) : Lane decided package [.toolCall package.agentId]
  | native (ht : package.tier ≠ .hosted) {events : List UIEvent} (hc : Conversation decided events) :
    Lane decided package events

/-- What a run that returns has published. -/
def Trace (job : AgentJobInput) (decided : String → String → Prop) (package : AgentPackage)
    (events : List UIEvent) : Prop :=
  ∃ opening lane stopReason, Opening job opening ∧ Lane decided package lane ∧
    events = opening ++ lane ++ [.jobFinished stopReason]

section

variable {decided decided' : String → String → Prop} {package : AgentPackage} {events more : List UIEvent}
  {job : AgentJobInput}

theorem Conversation.mono (h : Conversation decided events) (hd : ∀ iid d, decided iid d → decided' iid d) :
    Conversation decided' events := by
  induction h with
  | nil => exact .nil
  | guardrail tool verdict _ ih => exact .guardrail tool verdict ih
  | approval hp hdec _ ih => exact .approval hp (hd _ _ hdec) ih

theorem Conversation.append (h : Conversation decided events) (h' : Conversation decided more) :
    Conversation decided (events ++ more) := by
  induction h with
  | nil => exact h'
  | guardrail tool verdict _ ih => exact .guardrail tool verdict ih
  | approval hp hdec _ ih => exact .approval hp hdec ih

theorem Lane.mono (h : Lane decided package events) (hd : ∀ iid d, decided iid d → decided' iid d) :
    Lane decided' package events := by
  cases h with
  | hosted ht => exact .hosted ht
  | native ht hc => exact .native ht (hc.mono hd)

theorem Trace.mono (h : Trace job decided package events) (hd : ∀ iid d, decided iid d → decided' iid d) :
    Trace job decided' package events := by
  obtain ⟨opening, lane, stopReason, ho, hl, he⟩ := h
  exact ⟨opening, lane, stopReason, ho, hl.mono hd, he⟩

/-- Either lane has a way to go on. -/
theorem lane_exists (decided : String → String → Prop) (package : AgentPackage) : ∃ lane, Lane decided package lane := by
  by_cases ht : package.tier = .hosted
  · exact ⟨_, .hosted ht⟩
  · exact ⟨_, .native ht .nil⟩

/-- No event is the last one. -/
def Unfinished (events : List UIEvent) : Prop := ∀ event ∈ events, event.kind ≠ "job_finished"

theorem Opening.unfinished (h : Opening job events) : Unfinished events := by
  cases h with
  | plain => exact List.forall_mem_singleton.mpr (by simp [UIEvent.jobStarted])
  | recalled notes hn =>
    exact List.forall_mem_cons.mpr ⟨by simp [UIEvent.jobStarted],
      List.forall_mem_singleton.mpr (by simp [UIEvent.memoryRecall])⟩

theorem Conversation.unfinished (h : Conversation decided events) : Unfinished events := by
  induction h with
  | nil => exact List.forall_mem_nil _
  | guardrail tool verdict _ ih => exact List.forall_mem_cons.mpr ⟨by simp [UIEvent.guardrail], ih⟩
  | approval hp hdec _ ih =>
    exact List.forall_mem_cons.mpr ⟨by simp [UIEvent.approvalPending],
      List.forall_mem_cons.mpr ⟨by simp [UIEvent.approvalResumed], ih⟩⟩

theorem Lane.unfinished (h : Lane decided package events) : Unfinished events := by
  cases h with
  | hosted ht => exact List.forall_mem_singleton.mpr (by simp [UIEvent.toolCall])
  | native ht hc => exact hc.unfinished

/-- The beginning of a trace. -/
structure Begins (job : AgentJobInput) (decided : String → String → Prop) (package : AgentPackage)
    (events : List UIEvent) : Prop where
  trace : ∃ rest, Trace job decided package (events ++ rest)
  unfinished : Unfinished events

/-- An opening is the beginning of a trace of any package. -/
theorem Opening.begins (ho : Opening job events) (decided : String → String → Prop) (package : AgentPackage) :
    Begins job decided package events := by
  obtain ⟨lane, hl⟩ := lane_exists decided package
  refine ⟨⟨lane ++ [.jobFinished ""], events, lane, "", ho, hl, ?_⟩, ho.unfinished⟩
  rw [List.append_assoc]

/-- An opening with a package's lane is the beginning of a trace of it. -/
theorem Lane.begins (ho : Opening job events) (hl : Lane decided package more) :
    Begins job decided package (events ++ more) :=
  ⟨⟨[.jobFinished ""], events, more, "", ho, hl, rfl⟩, List.forall_mem_append.mpr ⟨ho.unfinished, hl.unfinished⟩⟩

end

/-! ## The events of a session -/

/-- The loop has published `events`, and the approval it waits for if it waits. -/
def Paused (session : Session) (events : List UIEvent) : Prop :=
  match session.phase with
  | .waiting interrupt => ∃ pending, PendingApproval.ofInterrupt interrupt = some pending ∧
    session.events = events ++ [.approvalPending pending]
  | _ => session.events = events

theorem paused_onResult {session : Session} {events : List UIEvent} (he : session.events = events)
    (result : AgentResult) : Paused (session.onResult result) events := by
  unfold Session.onResult
  split
  · split
    · cases hp : PendingApproval.ofInterrupt _ with
      | none => exact he
      | some pending => exact ⟨pending, hp, congrArg (· ++ _) he⟩
    · exact he
  · exact he

/-- A step of the loop adds nothing to what it has published, or the answer to
the approval it waited for. -/
theorem Paused.step {session session' : Session} {a : Action} {events : List UIEvent}
    {decided : String → String → Prop} (h : Paused session events)
    (hd : ∀ iid d, session.decisions.lookup iid = some d → decided iid d) (hs : session.step a = some session') :
    ∃ more, Conversation decided more ∧ Paused session' (events ++ more) := by
  obtain ⟨iid, decision, rfl, rfl⟩ | ⟨result, rfl, hp, rfl⟩ | ⟨rfl, hp, rfl⟩ | ⟨interrupt, decision, rfl, hp, hl, rfl⟩ :=
    step_cases hs
  · refine ⟨[], .nil, ?_⟩
    rw [List.append_nil]
    exact h
  · refine ⟨[], .nil, ?_⟩
    rw [List.append_nil]
    rw [Paused, hp] at h
    exact paused_onResult h result
  · refine ⟨[], .nil, ?_⟩
    rw [List.append_nil]
    rw [Paused, hp] at h
    exact h
  · rw [Paused, hp] at h
    obtain ⟨pending, hof, he⟩ := h
    refine ⟨_, .approval hof (hd _ _ hl) .nil, ?_⟩
    show session.events ++ [.approvalResumed decision] = _
    rw [he, List.append_assoc]
    rfl

namespace JobRun

variable {job : AgentJobInput} {s s' : JobRun} {a : JobAction} {history : List JobAction}

/-- The decision was submitted for the interrupt. -/
def Decided (history : List JobAction) (interruptId decision : String) : Prop :=
  .session (.signal interruptId decision) ∈ history

/-- The packages the run's resolution gave; there is at most one. -/
def Resolved (history : List JobAction) (package : AgentPackage) : Prop := .resolved (.ok package) ∈ history

/-- What a run has published, by where it is. -/
def Published (job : AgentJobInput) (decided : String → String → Prop) (resolved : AgentPackage → Prop)
    (s : JobRun) : Prop :=
  match s.stage with
  | .marking => s.session.phase = .invoking ∧ s.session.events = [] ∧ ∀ p, ¬ resolved p
  | .resolving => s.session.phase = .invoking ∧ s.session.events = [.jobStarted job] ∧ ∀ p, ¬ resolved p
  | .recalling package =>
    s.session.phase = .invoking ∧ s.session.events = [.jobStarted job] ∧ ∀ p, resolved p ↔ p = package
  | .hosting package => (∀ p, resolved p ↔ p = package) ∧ package.tier = .hosted ∧
    ∃ opening, Opening job opening ∧ s.session.events = opening ++ [.toolCall package.agentId]
  | .native package _ => (∀ p, resolved p ↔ p = package) ∧ package.tier ≠ .hosted ∧
    ∃ opening talk, Opening job opening ∧ Conversation decided talk ∧ Paused s.session (opening ++ talk)
  | .raised _ => (∀ p q, resolved p → resolved q → p = q) ∧
    ∀ package, (∀ p, resolved p → p = package) → Begins job decided package s.session.events
  | _ => ∃ package, (∀ p, resolved p ↔ p = package) ∧ Trace job decided package s.session.events

structure TraceInv (job : AgentJobInput) (history : List JobAction) (s : JobRun) : Prop where
  decisions : ∀ iid d, s.session.decisions.lookup iid = some d → Decided history iid d
  published : Published job (Decided history) (Resolved history) s

theorem decided_snoc {interruptId decision : String} (h : Decided history interruptId decision) :
    Decided (history ++ [a]) interruptId decision := List.mem_append_left _ h

/-- Only a resolution that succeeds resolves a package. -/
theorem resolved_snoc (ha : ∀ package, a ≠ .resolved (.ok package)) :
    Resolved (history ++ [a]) = Resolved history := by
  funext package
  have hne := ha package
  simp [Resolved, Ne.symm hne]

/-- What is decided later changes nothing of what was published. -/
theorem Published.mono {decided decided' : String → String → Prop} {resolved : AgentPackage → Prop}
    (h : Published job decided resolved s) (hd : ∀ iid d, decided iid d → decided' iid d) :
    Published job decided' resolved s := by
  unfold Published at h ⊢
  split at h
  · exact h
  · exact h
  · exact h
  · exact h
  · obtain ⟨hr, ht, opening, talk, ho, hc, hp⟩ := h
    exact ⟨hr, ht, opening, talk, ho, hc.mono hd, hp⟩
  · refine ⟨h.1, fun package hp => ?_⟩
    obtain ⟨⟨rest, htrace⟩, hu⟩ := h.2 package hp
    exact ⟨⟨rest, htrace.mono hd⟩, hu⟩
  · obtain ⟨package, hr, ht⟩ := h
    exact ⟨package, hr, ht.mono hd⟩

/-- The end of a lane ends a trace. -/
theorem published_finish {decided : String → String → Prop} {resolved : AgentPackage → Prop} {package : AgentPackage}
    {opening lane : List UIEvent} (hr : ∀ p, resolved p ↔ p = package) (ho : Opening job opening)
    (hl : Lane decided package lane) (he : s.session.events = opening ++ lane) (stopReason output : String) :
    Published job decided resolved (s.finish job stopReason output) := by
  refine ⟨package, hr, opening, lane, stopReason, ho, hl, ?_⟩
  show s.session.events ++ [.jobFinished stopReason] = _
  rw [he]

/-- A run that raises at the end of a lane has begun a trace. -/
theorem published_raise {decided : String → String → Prop} {resolved : AgentPackage → Prop} {package : AgentPackage}
    {opening lane : List UIEvent} (hr : ∀ p, resolved p ↔ p = package) (ho : Opening job opening)
    (hl : Lane decided package lane) (he : s.session.events = opening ++ lane) (failure : Failure) :
    Published job decided resolved (s.goto (.raised failure)) := by
  refine ⟨fun p q hp hq => ((hr p).mp hp).trans ((hr q).mp hq).symm, fun p hp => ?_⟩
  rw [hp package ((hr package).mpr rfl)] at hl
  show Begins job decided p s.session.events
  rw [he]
  exact hl.begins ho

theorem published_enterLane {decided : String → String → Prop} {resolved : AgentPackage → Prop}
    {package : AgentPackage} (hi : s.session.phase = .invoking) (he : s.session.events = [.jobStarted job])
    (hr : ∀ p, resolved p ↔ p = package) (recalled : List String) :
    Published job decided resolved (s.enterLane job package recalled) := by
  -- the run after the recall, whatever it gave
  obtain ⟨s₁, hs₁, hi₁, opening, ho, he₁⟩ : ∃ s₁ : JobRun,
      (if recalled = [] then s else s.publish (.memoryRecall recalled)) = s₁ ∧ s₁.session.phase = .invoking ∧
        ∃ opening, Opening job opening ∧ s₁.session.events = opening := by
    by_cases hn : recalled = []
    · exact ⟨s, if_pos hn, hi, _, .plain, he⟩
    · refine ⟨_, if_neg hn, hi, _, .recalled recalled hn, ?_⟩
      show s.session.events ++ [.memoryRecall recalled] = _
      rw [he]
      rfl
  unfold enterLane
  simp only [hs₁]
  split
  · rename_i ht
    refine ⟨hr, ht, opening, ho, ?_⟩
    show s₁.session.events ++ [.toolCall package.agentId] = _
    rw [he₁]
  · rename_i ht
    split
    · refine ⟨hr, ht, opening, [], ho, .nil, ?_⟩
      rw [List.append_nil]
      show Paused s₁.session opening
      rw [Paused, hi₁]
      exact he₁
    · exact published_raise hr ho (.native ht .nil) (by rw [List.append_nil]; exact he₁) _

/-- A step of the approval loop. -/
theorem published_session {decided : String → String → Prop} {resolved : AgentPackage → Prop}
    {package : AgentPackage} {setup : AgentSetup} {session : Session} {opening talk : List UIEvent}
    (hp : s.stage = .native package setup) (hr : ∀ p, resolved p ↔ p = package) (ht : package.tier ≠ .hosted)
    (ho : Opening job opening) (hc : Conversation decided talk) (hpaused : Paused session (opening ++ talk)) :
    Published job decided resolved (s.afterSession job session) := by
  unfold afterSession
  cases hphase : session.phase with
  | finished stopReason output =>
    rw [Paused, hphase] at hpaused
    exact published_finish (s := { s with session }) hr ho (.native ht hc) hpaused stopReason output
  | raised =>
    rw [Paused, hphase] at hpaused
    exact published_raise (s := { s with session }) hr ho (.native ht hc) hpaused _
  | invoking =>
    simp only [Published, hp]
    exact ⟨hr, ht, opening, talk, ho, hc, hpaused⟩
  | waiting interrupt =>
    simp only [Published, hp]
    exact ⟨hr, ht, opening, talk, ho, hc, hpaused⟩

theorem published_onVerdict {decided : String → String → Prop} {resolved : AgentPackage → Prop}
    {package : AgentPackage} {setup : AgentSetup} (hp : s.stage = .native package setup)
    (hi : s.session.phase = .invoking) (h : Published job decided resolved s) (tool : String)
    (verdict : Except Raised GuardrailVerdict) : Published job decided resolved (s.onVerdict tool verdict) := by
  unfold onVerdict
  split
  · rename_i verdict
    split
    · simp only [Published, hp] at h
      obtain ⟨hr, ht, opening, talk, ho, hc, hpaused⟩ := h
      have htalk : Conversation decided (talk ++ [.guardrail tool verdict]) := hc.append (.guardrail tool verdict .nil)
      have hstage : (s.publish (.guardrail tool verdict)).stage = .native package setup := hp
      simp only [Published, hstage]
      refine ⟨hr, ht, opening, _, ho, htalk, ?_⟩
      rw [Paused, hi] at hpaused
      show Paused (s.publish (.guardrail tool verdict)).session _
      rw [Paused, show (s.publish (.guardrail tool verdict)).session.phase = .invoking from hi]
      show s.session.events ++ [.guardrail tool verdict] = _
      rw [hpaused, List.append_assoc]
    · exact h
  · exact h

theorem published_step (hd : ∀ iid d, s.session.decisions.lookup iid = some d → Decided history iid d)
    (h : Published job (Decided history) (Resolved history) s) (hs : Steps job s a s') :
    Published job (Decided (history ++ [a])) (Resolved (history ++ [a])) s' := by
  have hmono : Published job (Decided (history ++ [a])) (Resolved history) s := h.mono fun _ _ => decided_snoc
  have hsame : (∀ package, a ≠ .resolved (.ok package)) → Resolved (history ++ [a]) = Resolved history := resolved_snoc
  cases hs with
  | signal interruptId decision =>
    rw [hsame (by simp)]
    exact hmono
  | @session a package setup session hp hstep =>
    rw [hsame (by simp)]
    simp only [Published, hp] at hmono
    obtain ⟨hr, ht, opening, talk, ho, hc, hpaused⟩ := hmono
    obtain ⟨more, hmore, hpaused⟩ := hpaused.step (fun iid d hl => decided_snoc (a := .session a) (hd iid d hl)) hstep
    rw [List.append_assoc] at hpaused
    exact published_session hp hr ht ho (hc.append hmore) hpaused
  | marked result hp =>
    rw [hsame (by simp)]
    simp only [Published, hp] at hmono
    obtain ⟨hi, he, hr⟩ := hmono
    refine ⟨hi, ?_, hr⟩
    show s.session.events ++ [.jobStarted job] = _
    rw [he]
    rfl
  | resolved package hp =>
    simp only [Published, hp] at h
    obtain ⟨hi, he, hr⟩ := h
    refine ⟨hi, he, fun p => ?_⟩
    have hp : Resolved (history ++ [.resolved (.ok package)]) p ↔ Resolved history p ∨ p = package := by
      simp [Resolved]
    rw [hp]
    exact or_iff_right (hr p)
  | unresolved e hp =>
    rw [hsame (by simp)]
    simp only [Published, hp] at hmono
    obtain ⟨hi, he, hr⟩ := hmono
    refine ⟨fun p _ h => absurd h (hr p), fun package _ => ?_⟩
    show Begins job _ package s.session.events
    rw [he]
    exact Opening.plain.begins _ package
  | recalled result hp =>
    rw [hsame (by simp)]
    simp only [Published, hp] at hmono
    obtain ⟨hi, he, hr⟩ := hmono
    exact published_enterLane hi he hr _
  | invoked response hp ho =>
    rw [hsame (by simp)]
    simp only [Published, hp] at hmono
    obtain ⟨hr, ht, opening, ho, he⟩ := hmono
    exact published_finish hr ho (.hosted ht) he _ _
  | rejected response hp he =>
    rw [hsame (by simp)]
    simp only [Published, hp] at hmono
    obtain ⟨hr, ht, opening, ho, he⟩ := hmono
    exact published_raise hr ho (.hosted ht) he _
  | guardrail tool verdict hp hi =>
    rw [hsame (by simp)]
    exact published_onVerdict hp hi hmono tool verdict
  | recorded result hp =>
    rw [hsame (by simp)]
    simp only [Published, hp] at hmono
    exact hmono
  | slept hp =>
    rw [hsame (by simp)]
    simp only [Published, hp] at hmono
    exact hmono

/-- No step but a signal's changes the decisions. -/
theorem decisions_step (hs : Steps job s a s') : (∃ iid d, a = .session (.signal iid d) ∧
    s'.session.decisions = s.session.decisions.insert iid d) ∨ s'.session.decisions = s.session.decisions := by
  cases hs with
  | signal iid d => exact .inl ⟨iid, d, rfl, rfl⟩
  | @session a package setup session hp hstep =>
    have hafter : (s.afterSession job session).session.decisions = session.decisions := by
      unfold afterSession
      split <;> rfl
    rw [hafter]
    obtain ⟨iid, d, rfl, rfl⟩ | ⟨result, rfl, -, rfl⟩ | ⟨rfl, -, rfl⟩ | ⟨interrupt, d, rfl, -, -, rfl⟩ := step_cases hstep
    · exact .inl ⟨iid, d, rfl, rfl⟩
    · exact .inr (onResult_frame _ result).1
    · exact .inr rfl
    · exact .inr rfl
  | @recalled result package hp =>
    refine .inr ?_
    unfold enterLane
    generalize result.toOption.getD [] = notes
    by_cases hn : notes = []
    · simp only [hn, if_true]
      split
      · rfl
      · split <;> rfl
    · simp only [hn, if_false]
      split
      · rfl
      · split <;> rfl
  | guardrail tool verdict hp hi =>
    refine .inr ?_
    unfold onVerdict
    split
    · split <;> rfl
    · rfl
  | _ => exact .inr rfl

theorem traceInv_step (hI : TraceInv job history s) (hs : s.step job a = some s') :
    TraceInv job (history ++ [a]) s' := by
  have hsteps := steps_of_step hs
  refine ⟨fun iid d hl => ?_, published_step hI.decisions hI.published hsteps⟩
  rcases decisions_step hsteps with ⟨jid, e, rfl, hdec⟩ | hdec
  · rw [hdec] at hl
    by_cases hj : iid = jid
    · subst hj
      rw [AList.lookup_insert] at hl
      cases hl
      exact List.mem_append_right _ List.mem_cons_self
    · rw [AList.lookup_insert_ne hj] at hl
      exact decided_snoc (hI.decisions iid d hl)
  · rw [hdec] at hl
    exact decided_snoc (hI.decisions iid d hl)

/-- **The shape of a run's events.** What a run that returns has published is
a trace of its package's lane; what one that raises has published is the
beginning of one, and no last event. -/
theorem jobRun_trace (job : AgentJobInput) (history : List JobAction) (s : JobRun)
    (hr : run (step job) {} history = some s) :
    (∀ outcome, s.stage = .returned outcome → ∃ package, (∀ p, Resolved history p ↔ p = package) ∧
      Trace job (Decided history) package s.session.events) ∧
    ∀ failure, s.stage = .raised failure → ∀ package, (∀ p, Resolved history p → p = package) →
      Begins job (Decided history) package s.session.events := by
  have hstart : TraceInv job [] {} := by
    refine ⟨fun _ _ hl => ?_, ?_⟩
    · cases hl
    · exact ⟨rfl, rfl, fun _ => List.not_mem_nil⟩
  have h := (run_keeps (I := TraceInv job) hstart (fun _ _ _ _ => traceInv_step) hr).published
  refine ⟨fun outcome ho => ?_, fun failure hf => ?_⟩
  · simp only [Published, ho] at h
    exact h
  · simp only [Published, hf] at h
    exact h.2

def triageAgent : AgentPackage where
  agentId := "incident-triage"
  version := 1
  name := "Incident Triage"
  tier := .noCode
  model := "bedrock-claude"
  systemPrompt := "Triage it for {{tenant_id}}."

def triageJob : AgentJobInput := ⟨"session-incident-triage-1", "acme", "incident-triage", 1, "Checkout is slow."⟩

/-- A native run, that pauses once for an approval. -/
def pausedOnce (notes : Except Raised (List String)) (mark record : Except Raised Unit) : List JobAction :=
  [.marked mark, .resolved (.ok triageAgent), .recalled notes,
    .session (.agentReturns ⟨"interrupt", [⟨"i-1", .null⟩], ""⟩), .session (.signal "i-1" "approve"), .session .release,
    .session (.agentReturns ⟨"end_turn", [], "done"⟩), .recorded record, .slept]

theorem jobRun_trace_approved :
    ∃ s, run (step triageJob) {} (pausedOnce (.ok ["paid C-1"]) (.ok ()) (.ok ())) = some s ∧
      ∃ package, Trace triageJob (Decided (pausedOnce (.ok ["paid C-1"]) (.ok ()) (.ok ()))) package s.session.events := by
  refine ⟨_, rfl, ?_⟩
  obtain ⟨package, -, ht⟩ := (jobRun_trace triageJob (pausedOnce (.ok ["paid C-1"]) (.ok ()) (.ok ())) _ rfl).1 _ rfl
  exact ⟨package, ht⟩

/-! ## Best effort -/

/-- The same action, but for what became of a best-effort activity: whether a
mark or a record failed, or whether a recall failed or found nothing. -/
inductive Alike : JobAction → JobAction → Prop
  | same (a : JobAction) : Alike a a
  | marked (result result' : Except Raised Unit) : Alike (.marked result) (.marked result')
  | recorded (result result' : Except Raised Unit) : Alike (.recorded result) (.recorded result')
  | recalled (e : Raised) : Alike (.recalled (.error e)) (.recalled (.ok []))

theorem alike_step {b : JobAction} (h : Alike a b) (job : AgentJobInput) (s : JobRun) : s.step job a = s.step job b := by
  cases h with
  | same => rfl
  | marked result result' =>
    simp only [step]
    cases s.stage with
    | marking => cases result <;> cases result' <;> rfl
    | _ => rfl
  | recorded result result' =>
    simp only [step]
    cases s.stage with
    | recording stopReason output summary => cases result <;> cases result' <;> rfl
    | _ => rfl
  | recalled e =>
    simp only [step]
    cases s.stage with
    | recalling package => rfl
    | _ => rfl

/-- **Best effort.** Two runs that differ only in whether marks and records
fail, and where one's recall fails and the other's finds nothing, are in the
same state at each point: the same events, the same prompt, the same outcome. -/
theorem jobRun_bestEffort (job : AgentJobInput) (history history' : List JobAction)
    (h : List.Forall₂ Alike history history') : run (step job) {} history = run (step job) {} history' := by
  suffices hs : ∀ s : JobRun, run (step job) s history = run (step job) s history' from hs {}
  induction h with
  | nil => exact fun _ => rfl
  | cons hab _ ih =>
    intro s
    rw [run_cons, run_cons, alike_step hab]
    cases s.step job _ with
    | none => rfl
    | some s' => exact ih s'

/-- Every best-effort activity fails. -/
theorem jobRun_bestEffort_fails :
    run (step triageJob) {} (pausedOnce (.error .requestError) (.error .requestError) (.error .requestError)) =
      run (step triageJob) {} (pausedOnce (.ok []) (.ok ()) (.ok ())) := by
  refine jobRun_bestEffort triageJob _ _ ?_
  exact .cons (.marked _ _) (.cons (.same _) (.cons (.recalled _) (.cons (.same _) (.cons (.same _) (.cons (.same _)
    (.cons (.same _) (.cons (.recorded _ _) (.cons (.same _) .nil))))))))

end JobRun

end ControlPlane
