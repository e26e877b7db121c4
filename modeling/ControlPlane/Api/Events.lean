import ControlPlane.Workflows.JobRun

/-!
# The event stream

`app/api/routes/events.py`: the items of a job's Workflow Stream
(`StreamItem`), and the server-sent event each one becomes, if any
(`sseEvent`). The workflow's own events have their detail under `payload`;
what the model streams is translated (`translateStreamEvent`), and flat.

`run_produces`: what a run publishes is of the kinds of `Produced`.
-/

namespace ControlPlane

/-! ## What the model streams -/

/-- `toolUse`, which starts a call of a tool. -/
structure ToolUseStart where
  name : Option String := none
  toolUseId : Option String := none
  deriving DecidableEq

structure ContentBlockStart where
  toolUse : Option ToolUseStart := none

structure ReasoningDelta where
  text : Option String := none

structure ContentBlockDelta where
  text : Option String := none
  reasoningContent : Option ReasoningDelta := none

structure ContentBlockStartEvent where
  start : Option ContentBlockStart := none

structure ContentBlockDeltaEvent where
  delta : Option ContentBlockDelta := none

/-- A Strands event; any key may be absent. The frames that have neither of
these two are dropped, and so are their keys here. -/
structure StreamEvent where
  contentBlockDelta : Option ContentBlockDeltaEvent := none
  contentBlockStart : Option ContentBlockStartEvent := none

namespace StreamEvent

/-- The text of a delta that is not empty. -/
def deltaText (delta : ContentBlockDeltaEvent) : Option String := (delta.delta.getD {}).text.filter (· ≠ "")

def reasoningText (delta : ContentBlockDeltaEvent) : Option String :=
  ((delta.delta.getD {}).reasoningContent.getD {}).text.filter (· ≠ "")

/-- A tool's start that is not an empty dict. -/
def startedTool (start : ContentBlockStartEvent) : Option ToolUseStart := (start.start.getD {}).toolUse.filter (· ≠ {})

end StreamEvent

/-- A session-terminal event, or none to drop it. -/
def translateStreamEvent (event : StreamEvent) : Option Attrs :=
  match event.contentBlockDelta with
  | some delta =>
    match StreamEvent.deltaText delta with
    | some text => some [("kind", .str "token"), ("text", .str text)]
    | none => (StreamEvent.reasoningText delta).map fun text => [("kind", .str "reasoning"), ("text", .str text)]
  | none => (event.contentBlockStart.bind StreamEvent.startedTool).map fun toolUse =>
    [("kind", .str "tool_call"), ("tool", dumpOption toolUse.name), ("tool_use_id", dumpOption toolUse.toolUseId)]

/-! ## The route -/

/-- An item of the stream, by its topic. -/
inductive StreamItem
  | jobEvents (event : UIEvent)
  | modelStream (event : StreamEvent)

def UIEvent.modelDump (jobId : String) (event : UIEvent) : Attrs :=
  [("job_id", .str jobId), ("kind", .str event.kind), ("payload", .dict event.payload)]

/-- A server-sent event: its name, and the dict whose JSON is its data. -/
structure Sse where
  event : String
  data : Attrs

def sseEvent (jobId : String) : StreamItem → Option Sse
  | .jobEvents event => some ⟨event.kind, event.modelDump jobId⟩
  | .modelStream event => (translateStreamEvent event).map fun translated =>
    ⟨(asStr (getItem translated "kind")).getD "", ("job_id", .str jobId) :: translated⟩

/-- What `JSON.parse` reads in what `json.dumps` wrote: a NaN is written as
`NaN`, which it rejects. -/
def jsonParse (data : Attrs) : Option Attrs := if isJsonDict data then some data else none

/-! ## What runs publish -/

/-- What can be on the stream. -/
inductive Produced
  | jobStarted (job : AgentJobInput)
  | memoryRecall (notes : List String)
  /-- The hosted lane's. -/
  | hostedToolCall (agentId : String)
  | guardrail (tool : String) (verdict : GuardrailVerdict)
  | approvalPending (pending : PendingApproval)
  | approvalResumed (decision : String)
  | jobFinished (stopReason : String)
  | modelStream (event : StreamEvent)

def Produced.item : Produced → StreamItem
  | jobStarted job => .jobEvents (.jobStarted job)
  | memoryRecall notes => .jobEvents (.memoryRecall notes)
  | hostedToolCall agentId => .jobEvents (.toolCall agentId)
  | guardrail tool verdict => .jobEvents (.guardrail tool verdict)
  | approvalPending pending => .jobEvents (.approvalPending pending)
  | approvalResumed decision => .jobEvents (.approvalResumed decision)
  | jobFinished stopReason => .jobEvents (.jobFinished stopReason)
  | modelStream event => .modelStream event

/-- Every event is one that workflows publish. -/
def AllProduced (events : List UIEvent) : Prop := ∀ event ∈ events, ∃ p : Produced, p.item = .jobEvents event

section

variable {job : AgentJobInput} {s s' : JobRun} {a : JobAction} {events : List UIEvent}

theorem AllProduced.snoc (h : AllProduced events) (p : Produced) {event : UIEvent} (hp : p.item = .jobEvents event) :
    AllProduced (events ++ [event]) := by
  intro e he
  rcases List.mem_append.mp he with he | he
  · exact h e he
  · cases List.mem_singleton.mp he
    exact ⟨p, hp⟩

/-- A step of the approval loop. -/
theorem allProduced_session {session session' : Session} {a : Action} (h : AllProduced session.events)
    (hs : session.step a = some session') : AllProduced session'.events := by
  obtain ⟨iid, decision, -, rfl⟩ | ⟨result, -, -, rfl⟩ | ⟨-, -, rfl⟩ | ⟨interrupt, decision, -, -, -, rfl⟩ := step_cases hs
  · exact h
  · unfold Session.onResult
    split
    · split
      · cases hp : PendingApproval.ofInterrupt _ with
        | none => exact h
        | some pending => exact h.snoc (.approvalPending pending) rfl
      · exact h
    · exact h
  · exact h
  · exact h.snoc (.approvalResumed decision) rfl

theorem allProduced_step (h : AllProduced s.session.events) (hs : JobRun.Steps job s a s') :
    AllProduced s'.session.events := by
  cases hs with
  | signal interruptId decision => exact h
  | @session a package setup session hp hstep =>
    have hsession : AllProduced session.events := allProduced_session h hstep
    unfold JobRun.afterSession
    split
    · exact hsession.snoc (.jobFinished _) rfl
    · exact hsession
    · exact hsession
  | marked result hp => exact h.snoc (.jobStarted job) rfl
  | resolved package hp => exact h
  | unresolved e hp => exact h
  | @recalled result package hp =>
    unfold JobRun.enterLane
    generalize result.toOption.getD [] = notes
    have hrecall : AllProduced (if notes = [] then s else s.publish (.memoryRecall notes)).session.events := by
      split
      · exact h
      · exact h.snoc (.memoryRecall notes) rfl
    simp only
    split
    · exact hrecall.snoc (.hostedToolCall package.agentId) rfl
    · split
      · exact hrecall
      · exact hrecall
  | invoked response hp ho => exact h.snoc (.jobFinished _) rfl
  | rejected response hp he => exact h
  | guardrail tool verdict hp hi =>
    unfold JobRun.onVerdict
    split
    · split
      · exact h.snoc (.guardrail tool _) rfl
      · exact h
    · exact h
  | recorded result hp => exact h
  | slept hp => exact h

/-- What a run publishes. -/
theorem run_produces {history : List JobAction} (hr : Machine.run (JobRun.step job) {} history = some s) :
    AllProduced s.session.events := by
  refine Machine.run_keeps (I := fun _ s => AllProduced s.session.events) ?_ ?_ hr
  · exact List.forall_mem_nil _
  · intro _ s a s' h hs
    exact allProduced_step h (JobRun.steps_of_step hs)

end

end ControlPlane
