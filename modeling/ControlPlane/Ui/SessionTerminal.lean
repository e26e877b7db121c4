import ControlPlane.Api.Events

/-!
# The session terminal

The listeners of `SessionTerminal.tsx`: each takes the fields of its event
(`handlers`) and appends an entry to the transcript. A property that is not
there is `undefined`, and so no value here.

`events_recovered_iff`: a listener recovers what the producer put in the
event, and misses nothing, exactly if the event is not the hosted lane's
`tool_call`, its tool has a name, and its data is JSON.

Nothing in the source declares `SHOW_TOKEN_STREAM`, or `onLiveChange` among the
properties: both are taken as given, the one as a parameter.
-/

namespace ControlPlane

/-! ## JavaScript values -/

/-- `String(v)`; an event has no number or list in a string's place. -/
def jsString : Value → String
  | .null => "null"
  | .bool b => if b then "true" else "false"
  | .str s => s
  | .dict _ => "[object Object]"
  | v => pyStr v

/-- A property's value as a string, `undefined` included. -/
def jsPropString (v : Option Value) : String := v.elim "undefined" jsString

/-- `v ?? default`. -/
def orDefault (v : Option Value) (default : Value) : Value :=
  match v with
  | some .null => default
  | some v => v
  | none => default

/-- `Boolean(v)`. -/
def jsBoolean : Option Value → Bool
  | some (.bool b) => b
  | some (.int n) => n ≠ 0
  | some (.float (.fin d)) => d.val ≠ 0
  | some (.float .nan) => false
  | some (.str s) => s ≠ ""
  | some .null => false
  | none => false
  | some _ => true

/-! ## The transcript -/

inductive Entry
  | text (text : Option Value)
  | reasoning (text : Option Value)
  | tool (tool : Option Value)
  | guardrail (tool : String) (blocked : Bool) (reason : Option String)
  | «recall» (notes : Value)
  | note (text : String)

/-- `a + b`, of two texts. -/
def jsConcat (a b : Option Value) : Option Value := some (.str (jsPropString a ++ jsPropString b))

/-- Appends an entry; texts that follow one another run together. -/
def append (entries : List Entry) (entry : Entry) : List Entry :=
  match entries.getLast?, entry with
  | some (.text last), .text text => entries.dropLast ++ [.text (jsConcat last text)]
  | some (.reasoning last), .reasoning text => entries.dropLast ++ [.reasoning (jsConcat last text)]
  | _, entry => entries ++ [entry]

/-! ## The listeners -/

def onFlat (handler : Attrs → Entry) : Attrs → Entry := handler

/-- The listeners of the workflow's events, which read `payload ?? {}`. -/
def onWorkflow (handler : Attrs → Entry) : Attrs → Entry := fun data =>
  handler ((asDict (orDefault (data.lookup "payload") (.dict []))).getD [])

/-- The listeners, by the event's name. Tokens are shown if
VITE_SHOW_TOKEN_STREAM is set. -/
def handlers (showTokenStream : Bool) : List (String × (Attrs → Entry)) :=
  (if showTokenStream then
    [("token", onFlat fun d => .text (d.lookup "text")), ("reasoning", onFlat fun d => .reasoning (d.lookup "text"))]
  else []) ++
  [("tool_call", onFlat fun d => .tool (d.lookup "tool")),
    ("memory_recall", onWorkflow fun p => .«recall» (orDefault (p.lookup "notes") (.list []))),
    ("job_started", onWorkflow fun p =>
      .note ("session started — " ++ jsString (orDefault (p.lookup "agent_id") (.str "")))),
    ("guardrail", onWorkflow fun p => .guardrail (jsString (orDefault (p.lookup "tool") (.str "tool")))
      (jsBoolean (p.lookup "blocked"))
      (match orDefault (p.lookup "reason") .null with
        | .null => none
        | v => some (jsString v))),
    ("approval_pending", onWorkflow fun p =>
      .note ("awaiting approval — " ++ jsString (orDefault (p.lookup "tool") (.str "tool")))),
    ("approval_resumed", onWorkflow fun p => .note ("reviewer said: " ++ jsPropString (p.lookup "decision"))),
    ("job_finished", onWorkflow fun p =>
      .note ("session finished — " ++ jsString (orDefault (p.lookup "stop_reason") (.str ""))))]

/-- What the terminal appends for an event: nothing where it has no listener,
or its data does not parse. -/
def received (showTokenStream : Bool) (sse : Sse) : Option Entry := do
  let handler ← (handlers showTokenStream).lookup sse.event
  return handler (← jsonParse sse.data)

/-! ## What the producers mean -/

/-- The value of a Strands event that a terminal shows. -/
def StreamEvent.meant (event : StreamEvent) : Entry :=
  match event.contentBlockDelta with
  | some delta =>
    match StreamEvent.deltaText delta with
    | some text => .text (some (.str text))
    | none => .reasoning ((StreamEvent.reasoningText delta).map .str)
  | none => .tool ((event.contentBlockStart.bind StreamEvent.startedTool).bind fun toolUse => toolUse.name.map .str)

/-- The entry with the producer's own values. -/
def Produced.meant : Produced → Entry
  | jobStarted job => .note ("session started — " ++ job.agentId)
  | memoryRecall notes => .«recall» (.list (notes.map .str))
  | hostedToolCall agentId => .tool (some (.str ("hosted:" ++ agentId)))
  | guardrail tool verdict => .guardrail tool verdict.blocked verdict.reason
  | approvalPending pending => .note ("awaiting approval — " ++ pending.tool)
  | approvalResumed decision => .note ("reviewer said: " ++ decision)
  | jobFinished stopReason => .note ("session finished — " ++ stopReason)
  | modelStream event => event.meant

/-- No field is `undefined` or null where the terminal wants a value. -/
def Entry.Complete : Entry → Prop
  | text v => ∃ s, v = some (.str s)
  | reasoning v => ∃ s, v = some (.str s)
  | tool v => ∃ s, v = some (.str s)
  | _ => True

/-- The terminal recovers the producer's values, and misses none. -/
def Recovers (showTokenStream : Bool) (p : Produced) (sse : Sse) : Prop :=
  received showTokenStream sse = some p.meant ∧ p.meant.Complete

/-- Where producer and terminal agree. -/
def Agreed : Produced → Prop
  | .hostedToolCall _ => False
  | .approvalPending pending => isJsonDict pending.toolInput = true
  | .modelStream event => event.contentBlockDelta = none →
    ∃ toolUse, event.contentBlockStart.bind StreamEvent.startedTool = some toolUse ∧ toolUse.name ≠ none
  | _ => True

section

variable {jobId name : String} {showTokenStream : Bool} {handler : Attrs → Entry} {payload data : Attrs}

/-- An event of the workflow reaches its listener with its payload. -/
theorem received_workflow (hl : (handlers showTokenStream).lookup name = some (onWorkflow handler)) :
    received showTokenStream ⟨name, UIEvent.modelDump jobId ⟨name, payload⟩⟩ =
      if isJsonDict payload then some (handler payload) else none := by
  have hjson : isJsonDict (UIEvent.modelDump jobId ⟨name, payload⟩) = isJsonDict payload := by
    simp [UIEvent.modelDump, isJsonDict, isJson]
  unfold received jsonParse
  simp only [hl, hjson]
  cases isJsonDict payload with
  | true => rfl
  | false => rfl

theorem received_flat (hl : (handlers showTokenStream).lookup name = some (onFlat handler))
    (hjson : isJsonDict data = true) : received showTokenStream ⟨name, data⟩ = some (handler data) := by
  unfold received jsonParse
  simp only [hl, hjson]
  rfl

theorem isJsonList_str (xs : List String) : isJsonList (xs.map .str) = true := by
  induction xs with
  | nil => rfl
  | cons x xs ih => simp [isJsonList, isJson, ih]

theorem isJson_dumpOption (s : Option String) : isJson (dumpOption s) = true := by
  cases s with
  | none => rfl
  | some s => rfl

/-- The listeners of the workflow's events, whether tokens are shown or not. -/
theorem handlers_lookup (name : String) (hn : name ∉ ["token", "reasoning"]) :
    (handlers showTokenStream).lookup name = (handlers false).lookup name := by
  cases showTokenStream with
  | false => rfl
  | true =>
    simp only [List.mem_cons, List.not_mem_nil, or_false, not_or] at hn
    have htoken : (name == "token") = false := beq_false_of_ne hn.1
    have hreasoning : (name == "reasoning") = false := beq_false_of_ne hn.2
    show List.lookup name (("token", _) :: ("reasoning", _) :: handlers false) = _
    rw [List.lookup_cons, htoken, List.lookup_cons, hreasoning]

/-- An event with JSON for its payload reaches the listener it has with tokens
hidden. -/
theorem received_event (name : String) (hn : name ∉ ["token", "reasoning"])
    (hl : (handlers false).lookup name = some (onWorkflow handler)) (hjson : isJsonDict payload = true) :
    received showTokenStream ⟨name, UIEvent.modelDump jobId ⟨name, payload⟩⟩ = some (handler payload) := by
  rw [received_workflow ((handlers_lookup name hn).trans hl), if_pos hjson]

/-- The hosted lane's `tool_call` has its tool under `payload`, where the
listener does not look. -/
theorem received_hostedToolCall (agentId : String) :
    received showTokenStream ⟨"tool_call", UIEvent.modelDump jobId (.toolCall agentId)⟩ = some (.tool none) := by
  have hjson : isJsonDict (UIEvent.modelDump jobId (.toolCall agentId)) = true := by
    simp [UIEvent.modelDump, UIEvent.toolCall, isJsonDict, isJson]
  exact (received_flat ((handlers_lookup "tool_call" (by decide)).trans rfl) hjson).trans rfl

/-- A pending approval's note, if its tool's input is JSON. -/
theorem received_approvalPending (jobId : String) (showTokenStream : Bool) (pending : PendingApproval) :
    received showTokenStream ⟨"approval_pending", UIEvent.modelDump jobId (.approvalPending pending)⟩ =
      if isJsonDict pending.toolInput then some (.note ("awaiting approval — " ++ pending.tool)) else none := by
  have hjson : isJsonDict [("tool", .str pending.tool), ("tool_input", .dict pending.toolInput)] =
      isJsonDict pending.toolInput := by simp [isJsonDict, isJson]
  rw [← hjson]
  exact (received_workflow ((handlers_lookup "approval_pending" (by decide)).trans rfl)).trans rfl

/-- The native lane's `tool_call` has its tool where the listener looks. -/
theorem received_toolUse (jobId : String) (showTokenStream : Bool) (toolUse : ToolUseStart) :
    received showTokenStream ⟨"tool_call", [("job_id", .str jobId), ("kind", .str "tool_call"),
      ("tool", dumpOption toolUse.name), ("tool_use_id", dumpOption toolUse.toolUseId)]⟩ =
        some (.tool (some (dumpOption toolUse.name))) := by
  refine (received_flat ((handlers_lookup "tool_call" (by decide)).trans rfl) ?_).trans rfl
  simp [isJsonDict, isJson, isJson_dumpOption]

/-- What the terminal makes of a Strands event. -/
theorem received_stream {event : StreamEvent} {sse : Sse} (hs : sseEvent jobId (.modelStream event) = some sse)
    (hl : ((handlers showTokenStream).lookup sse.event).isSome) :
    Recovers showTokenStream (.modelStream event) sse ↔ Agreed (.modelStream event) := by
  obtain ⟨translated, ht, rfl⟩ := Option.map_eq_some_iff.mp hs
  rcases hd : event.contentBlockDelta with _ | delta
  · simp only [translateStreamEvent, hd] at ht
    obtain ⟨toolUse, htool, rfl⟩ := Option.map_eq_some_iff.mp ht
    have hmeant : event.meant = .tool (toolUse.name.map .str) := by simp [StreamEvent.meant, hd, htool]
    have hr := received_toolUse jobId showTokenStream toolUse
    have hagreed : Agreed (.modelStream event) ↔ toolUse.name ≠ none := by simp [Agreed, hd, htool]
    rw [hagreed, Recovers, Produced.meant, hmeant]
    cases hn : toolUse.name with
    | none =>
      refine iff_of_false ?_ (fun h => h rfl)
      rintro ⟨-, s, h⟩
      cases h
    | some name =>
      refine iff_of_true ⟨?_, name, rfl⟩ (Option.some_ne_none name)
      rw [hn] at hr
      exact hr
  · have hagreed : Agreed (.modelStream event) := fun h => absurd (hd.symm.trans h) (Option.some_ne_none delta)
    simp only [translateStreamEvent, hd] at ht
    rcases htext : StreamEvent.deltaText delta with _ | text
    · rw [htext] at ht
      obtain ⟨text, hreasoning, rfl⟩ := Option.map_eq_some_iff.mp ht
      have hmeant : event.meant = .reasoning (some (.str text)) := by simp [StreamEvent.meant, hd, htext, hreasoning]
      refine iff_of_true ?_ hagreed
      rw [Recovers, Produced.meant, hmeant]
      refine ⟨?_, text, rfl⟩
      cases showTokenStream with
      | false => cases hl
      | true => exact (received_flat rfl (by simp [isJsonDict, isJson])).trans rfl
    · rw [htext] at ht
      cases ht
      have hmeant : event.meant = .text (some (.str text)) := by simp [StreamEvent.meant, hd, htext]
      refine iff_of_true ?_ hagreed
      rw [Recovers, Produced.meant, hmeant]
      refine ⟨?_, text, rfl⟩
      cases showTokenStream with
      | false => cases hl
      | true => exact (received_flat rfl (by simp [isJsonDict, isJson])).trans rfl

/-- **The stream's events.** A listener recovers what the producer put in, and
misses nothing, exactly where producer and terminal agree. -/
theorem events_recovered_iff (jobId : String) (showTokenStream : Bool) (p : Produced) (sse : Sse)
    (hs : sseEvent jobId p.item = some sse) (hl : ((handlers showTokenStream).lookup sse.event).isSome) :
    Recovers showTokenStream p sse ↔ Agreed p := by
  cases p with
  | jobStarted job =>
    cases hs
    refine iff_of_true ⟨?_, trivial⟩ trivial
    exact (received_event "job_started" (by decide) rfl rfl).trans rfl
  | memoryRecall notes =>
    cases hs
    refine iff_of_true ⟨?_, trivial⟩ trivial
    exact (received_event "memory_recall" (by decide) rfl (by simp [isJsonDict, isJson, isJsonList_str])).trans rfl
  | hostedToolCall agentId =>
    cases hs
    refine iff_of_false ?_ id
    rintro ⟨h, -⟩
    cases (received_hostedToolCall agentId).symm.trans h
  | guardrail tool verdict =>
    cases hs
    refine iff_of_true ⟨?_, trivial⟩ trivial
    refine (received_event "guardrail" (by decide) rfl (by simp [isJsonDict, isJson, isJson_dumpOption])).trans ?_
    obtain ⟨blocked, reason, evaluated⟩ := verdict
    cases reason with
    | none => rfl
    | some reason => rfl
  | approvalPending pending =>
    cases hs
    have hr := received_approvalPending jobId showTokenStream pending
    constructor
    · rintro ⟨h, -⟩
      by_contra hn
      cases (hr.trans (if_neg hn)).symm.trans h
    · intro h
      exact ⟨hr.trans (if_pos h), trivial⟩
  | approvalResumed decision =>
    cases hs
    refine iff_of_true ⟨?_, trivial⟩ trivial
    exact (received_event "approval_resumed" (by decide) rfl rfl).trans rfl
  | jobFinished stopReason =>
    cases hs
    refine iff_of_true ⟨?_, trivial⟩ trivial
    exact (received_event "job_finished" (by decide) rfl rfl).trans rfl
  | modelStream event => exact received_stream hs hl

end

/-! ## A hosted run's tool call -/

def hostedAgent : AgentPackage where
  agentId := "vendorcheck"
  version := 1
  name := "VendorCheck"
  tier := .hosted
  model := "bedrock-claude"
  systemPrompt := "Check the vendor."
  runtimeArn := some "arn:aws:bedrock-agentcore:us-east-1:1:runtime/vendorcheck"

def hostedJob : AgentJobInput := ⟨"session-vendorcheck-2", "acme", "vendorcheck", 1, "Check Initech Supply."⟩

theorem events_recovered_blocked :
    Recovers false (.guardrail "submit_dispute_response" { blocked := true, reason := some "denied topic" })
      ⟨"guardrail", UIEvent.modelDump "session-1"
        (.guardrail "submit_dispute_response" { blocked := true, reason := some "denied topic" })⟩ :=
  (events_recovered_iff "session-1" false (.guardrail "submit_dispute_response"
    { blocked := true, reason := some "denied topic" }) _ rfl rfl).mpr trivial

/-- A hosted run publishes its tool call, and the terminal misses the tool. -/
theorem hostedToolCall_missed :
    (∃ s, Machine.run (JobRun.step hostedJob) {} [.marked (.ok ()), .resolved (.ok hostedAgent), .recalled (.ok [])] =
      some s ∧ UIEvent.toolCall "vendorcheck" ∈ s.session.events) ∧
    ∃ sse, sseEvent hostedJob.jobId (Produced.hostedToolCall "vendorcheck").item = some sse ∧
      received false sse = some (.tool none) ∧ ¬ Recovers false (.hostedToolCall "vendorcheck") sse := by
  refine ⟨⟨_, rfl, List.mem_append_right _ List.mem_cons_self⟩, _, rfl, received_hostedToolCall "vendorcheck", ?_⟩
  rintro ⟨h, -⟩
  cases (received_hostedToolCall "vendorcheck").symm.trans h

end ControlPlane
