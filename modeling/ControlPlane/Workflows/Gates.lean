import ControlPlane.Registry.Models

/-!
# The gates before a tool call

The two callbacks of an agent's tool calls: `ApprovalGate`
(`app/workflows/approval.py`), which asks a human through an interrupt and
runs again once the answer is stored, and `GuardrailGate`
(`app/workflows/guardrail.py`), which asks the guardrail each time it runs.
Both run on each pass (`runPass`), on one event they share; a call that a
pass suspends is passed again when a response arrives (`toolCall`).

* `runPass_dispatched_iff`: a pass dispatches the call exactly if every
  callback admits it, in whatever order they run.
* `toolCall_gated`: a call is dispatched only where neither gate objects,
  whatever its passes.
-/

namespace ControlPlane

/-! ## Events -/

structure ToolUse where
  name : String
  input : Attrs

/-- `cancelTool` is none where `cancel_tool` is False. -/
structure BeforeToolCallEvent where
  toolUse : ToolUse
  cancelTool : Option String := none

/-- `bool(event.cancel_tool)`. -/
def BeforeToolCallEvent.cancelled (event : BeforeToolCallEvent) : Bool := event.cancelTool.any fun text => text ≠ ""

/-- Why a callback did not return. -/
inductive Stop
  | interrupt (name : String) (reason : Attrs)
  | error (e : Raised)

abbrev Callback := BeforeToolCallEvent → Except Stop BeforeToolCallEvent

/-- `event.interrupt(name, reason)`: the stored response, or else the call is
suspended. -/
def interrupt (stored : Option String) (name : String) (reason : Attrs) : Except Stop String :=
  match stored with
  | some response => .ok response
  | none => .error (.interrupt name reason)

/-! ## The gates -/

def approve : String := "approve"

def interruptName : String := "approval"

/-- What the human is told of the call. -/
def ApprovalPolicy.reason (p : ApprovalPolicy) (toolUse : ToolUse) : Attrs :=
  [("tool", .str toolUse.name), ("input", .dict toolUse.input),
    ("policy", .str (p.field ++ " " ++ p.operator.value ++ " " ++ floatStr p.value))]

/-- `ApprovalGate._gate`. -/
def approvalGate (policy : Option ApprovalPolicy) (stored : Option String) : Callback := fun event =>
  match policy with
  | none => .ok event
  | some policy =>
    if !policy.requiresApproval event.toolUse.name event.toolUse.input then .ok event
    else do
      let decision ← interrupt stored interruptName (policy.reason event.toolUse)
      if decision ≠ approve then
        return { event with cancelTool := some ("denied by human reviewer: " ++ decision) }
      else return event

structure GuardrailVerdict where
  blocked : Bool
  reason : Option String := none
  /-- False only where no guardrail is configured. -/
  evaluated : Bool := true

/-- What Bedrock answers. -/
structure GuardrailResponse where
  action : String
  actionReason : Option String

/-- The activity `apply_guardrail`: no guardrail blocks nothing. -/
def applyGuardrail (guardrailId guardrailVersion : String) (response : Except Raised GuardrailResponse) :
    Except Raised GuardrailVerdict := do
  if guardrailId = "" ∨ guardrailVersion = "" then return { blocked := false, evaluated := false }
  else
    let response ← response
    if response.action = "GUARDRAIL_INTERVENED" then
      let reason := (response.actionReason.filter (· ≠ "")).getD "blocked by the payment guardrail"
      return { blocked := true, reason := some reason }
    else return { blocked := false }

/-- `GuardrailGate._gate`, with what the guardrail's activity gives. -/
def guardrailGate (guardedTools : List String) (verdict : Except Raised GuardrailVerdict) : Callback := fun event =>
  if event.toolUse.name ∉ guardedTools then .ok event
  else
    match verdict with
    | .error e => .error (.error e)
    | .ok verdict =>
      if verdict.blocked then
        .ok { event with cancelTool := some ("blocked by guardrail: " ++ verdict.reason.getD "None") }
      else .ok event

/-! ## Passes -/

/-- How a call stands after a pass. -/
inductive CallOutcome
  | dispatched
  | cancelled (text : String)
  | suspended
  | failed
  deriving DecidableEq

/-- The callbacks run in order, each on the event as the ones before left it;
one that does not return leaves it as it was. -/
def invokeCallbacks : List Callback → BeforeToolCallEvent → BeforeToolCallEvent × List Stop
  | [], event => (event, [])
  | callback :: rest, event =>
    match callback event with
    | .ok event => invokeCallbacks rest event
    | .error stop =>
      let r := invokeCallbacks rest event
      (r.1, stop :: r.2)

/-- A pass of the callbacks over a fresh event of the call. -/
def runPass (callbacks : List Callback) (toolUse : ToolUse) : CallOutcome :=
  let (event, stops) := invokeCallbacks callbacks { toolUse }
  if stops.any fun stop => match stop with | .error _ => true | _ => false then .failed
  else if stops ≠ [] then .suspended
  else if event.cancelled then .cancelled (event.cancelTool.getD "")
  else .dispatched

/-- The gates of an agent, in either order. -/
def gates (approvalFirst : Bool) (policy : Option ApprovalPolicy) (guardedTools : List String)
    (stored : Option String) (verdict : Except Raised GuardrailVerdict) : List Callback :=
  if approvalFirst then [approvalGate policy stored, guardrailGate guardedTools verdict]
  else [guardrailGate guardedTools verdict, approvalGate policy stored]

/-- What comes with a pass: the response stored since the one before, if any,
and what the guardrail's activity gives. -/
structure Pass where
  response : Option String
  verdict : Except Raised GuardrailVerdict

/-- A call, pass after pass until one does not suspend it. -/
def toolCall (approvalFirst : Bool) (policy : Option ApprovalPolicy) (guardedTools : List String)
    (toolUse : ToolUse) : Option String → List Pass → CallOutcome
  | _, [] => .suspended
  | stored, pass :: rest =>
    let stored := pass.response.or stored
    match runPass (gates approvalFirst policy guardedTools stored pass.verdict) toolUse with
    | .suspended => toolCall approvalFirst policy guardedTools toolUse stored rest
    | outcome => outcome

/-! ## Callbacks that admit or object -/

/-- The callback leaves the call's events as they are. -/
def Admits (toolUse : ToolUse) (callback : Callback) : Prop :=
  ∀ event, event.toolUse = toolUse → callback event = .ok event

/-- The callback stops the call or cancels it, whatever was before. -/
def Objects (toolUse : ToolUse) (callback : Callback) : Prop :=
  ∀ event, event.toolUse = toolUse → (∃ stop, callback event = .error stop) ∨
    ∃ text, text ≠ "" ∧ callback event = .ok { event with cancelTool := some text }

variable {toolUse : ToolUse} {callbacks : List Callback} {event : BeforeToolCallEvent}

theorem not_admits_of_objects {callback : Callback} (ho : Objects toolUse callback) : ¬ Admits toolUse callback := by
  intro ha
  have he := ha { toolUse } rfl
  rcases ho { toolUse } rfl with ⟨stop, hs⟩ | ⟨text, -, hs⟩
  · rw [he] at hs; cases hs
  · rw [he] at hs; cases hs

theorem invokeCallbacks_admitted (h : ∀ c ∈ callbacks, Admits toolUse c) (he : event.toolUse = toolUse) :
    invokeCallbacks callbacks event = (event, []) := by
  induction callbacks with
  | nil => rfl
  | cons c rest ih =>
    simp only [invokeCallbacks, h c List.mem_cons_self event he]
    exact ih fun c hc => h c (List.mem_cons_of_mem _ hc)

/-- No callback undoes a cancellation. -/
theorem invokeCallbacks_cancelled (h : ∀ c ∈ callbacks, Admits toolUse c ∨ Objects toolUse c)
    (he : event.toolUse = toolUse) (hc : event.cancelled = true) :
    (invokeCallbacks callbacks event).1.cancelled = true := by
  induction callbacks generalizing event with
  | nil => exact hc
  | cons c rest ih =>
    have hrest : ∀ c ∈ rest, Admits toolUse c ∨ Objects toolUse c := fun c hc => h c (List.mem_cons_of_mem _ hc)
    rcases h c List.mem_cons_self with ha | ho
    · simp only [invokeCallbacks, ha event he]
      exact ih hrest he hc
    · rcases ho event he with ⟨stop, hs⟩ | ⟨text, ht, hs⟩
      · simp only [invokeCallbacks, hs]
        exact ih hrest he hc
      · simp only [invokeCallbacks, hs]
        exact ih hrest he (by simpa [BeforeToolCallEvent.cancelled] using ht)

/-- A callback that objects leaves its mark, whatever the others do. -/
theorem invokeCallbacks_object (h : ∀ c ∈ callbacks, Admits toolUse c ∨ Objects toolUse c)
    (he : event.toolUse = toolUse) (ho : ∃ c ∈ callbacks, Objects toolUse c) :
    (invokeCallbacks callbacks event).2 ≠ [] ∨ (invokeCallbacks callbacks event).1.cancelled = true := by
  induction callbacks generalizing event with
  | nil => obtain ⟨c, hc, -⟩ := ho; cases hc
  | cons c rest ih =>
    have hrest : ∀ c ∈ rest, Admits toolUse c ∨ Objects toolUse c := fun c hc => h c (List.mem_cons_of_mem _ hc)
    rcases h c List.mem_cons_self with ha | hc
    · simp only [invokeCallbacks, ha event he]
      refine ih hrest he ?_
      obtain ⟨d, hd, hod⟩ := ho
      rcases List.mem_cons.mp hd with rfl | hd
      · exact absurd ha (not_admits_of_objects hod)
      · exact ⟨d, hd, hod⟩
    · rcases hc event he with ⟨stop, hs⟩ | ⟨text, ht, hs⟩
      · left
        simp [invokeCallbacks, hs]
      · right
        simp only [invokeCallbacks, hs]
        exact invokeCallbacks_cancelled hrest he (by simpa [BeforeToolCallEvent.cancelled] using ht)

theorem runPass_dispatched (h : runPass callbacks toolUse = .dispatched) :
    (invokeCallbacks callbacks { toolUse }).2 = [] ∧ (invokeCallbacks callbacks { toolUse }).1.cancelled = false := by
  simp only [runPass] at h
  split at h
  · cases h
  · split at h
    · cases h
    · rename_i hs
      split at h
      · cases h
      · rename_i hc
        exact ⟨not_not.mp hs, Bool.eq_false_iff.mpr hc⟩

/-- A pass dispatches the call exactly if every callback admits it. -/
theorem runPass_dispatched_iff (h : ∀ c ∈ callbacks, Admits toolUse c ∨ Objects toolUse c) :
    runPass callbacks toolUse = .dispatched ↔ ∀ c ∈ callbacks, Admits toolUse c := by
  constructor
  · intro hd c hc
    refine (h c hc).resolve_right fun ho => ?_
    obtain ⟨hs, hn⟩ := runPass_dispatched hd
    have hmark : (invokeCallbacks callbacks { toolUse }).2 ≠ [] ∨
        (invokeCallbacks callbacks { toolUse }).1.cancelled = true := invokeCallbacks_object h rfl ⟨c, hc, ho⟩
    rcases hmark with hs' | hc'
    · exact hs' hs
    · rw [hn] at hc'; cases hc'
  · intro ha
    have hall : invokeCallbacks callbacks { toolUse } = ({ toolUse }, []) := invokeCallbacks_admitted ha rfl
    simp only [runPass, hall]
    rfl

/-! ## What the gates admit -/

/-- The policy does not match the call, or the human's decision is exactly
"approve". -/
def Approved (policy : Option ApprovalPolicy) (toolUse : ToolUse) (decision : Option String) : Prop :=
  (∀ p, policy = some p → p.requiresApproval toolUse.name toolUse.input = false) ∨ decision = some "approve"

/-- The tool is not guarded, or the guardrail has not blocked the call. -/
def Unblocked (guardedTools : List String) (toolUse : ToolUse) (verdict : Except Raised GuardrailVerdict) : Prop :=
  toolUse.name ∉ guardedTools ∨ ∃ v, verdict = .ok v ∧ v.blocked = false

theorem approvalGate_cases (policy : Option ApprovalPolicy) (stored : Option String) (toolUse : ToolUse) :
    (Approved policy toolUse stored ∧ Admits toolUse (approvalGate policy stored)) ∨
      (¬ Approved policy toolUse stored ∧ Objects toolUse (approvalGate policy stored)) := by
  cases policy with
  | none => exact .inl ⟨.inl fun _ h => (nomatch h), fun _ _ => rfl⟩
  | some p =>
    cases hr : p.requiresApproval toolUse.name toolUse.input with
    | false =>
      refine .inl ⟨.inl fun q hq => by cases hq; exact hr, fun event he => ?_⟩
      subst he
      simp [approvalGate, hr]
    | true =>
      cases stored with
      | none =>
        refine .inr ⟨fun h => ?_, fun event he => .inl ⟨.interrupt interruptName (p.reason event.toolUse), ?_⟩⟩
        · rcases h with h | h
          · rw [h p rfl] at hr; cases hr
          · cases h
        · subst he
          simp only [approvalGate, hr]
          rfl
      | some d =>
        by_cases hd : d = "approve"
        · refine .inl ⟨.inr (congrArg some hd), fun event he => ?_⟩
          subst he
          simp only [approvalGate, hr, interrupt, hd, approve]
          rfl
        · refine .inr ⟨fun h => ?_, fun event he => .inr ⟨"denied by human reviewer: " ++ d, by simp, ?_⟩⟩
          · rcases h with h | h
            · rw [h p rfl] at hr; cases hr
            · exact hd (Option.some.inj h)
          · subst he
            simp only [approvalGate, hr, Bool.not_true, Bool.false_eq_true, if_false, interrupt]
            exact if_pos hd

theorem guardrailGate_cases (guardedTools : List String) (verdict : Except Raised GuardrailVerdict)
    (toolUse : ToolUse) :
    (Unblocked guardedTools toolUse verdict ∧ Admits toolUse (guardrailGate guardedTools verdict)) ∨
      (¬ Unblocked guardedTools toolUse verdict ∧ Objects toolUse (guardrailGate guardedTools verdict)) := by
  by_cases hg : toolUse.name ∈ guardedTools
  · have hn : ¬ toolUse.name ∉ guardedTools := not_not.mpr hg
    cases verdict with
    | error e =>
      refine .inr ⟨fun h => ?_, fun event he => .inl ⟨.error e, ?_⟩⟩
      · rcases h with h | ⟨v, h, -⟩
        · exact h hg
        · cases h
      · subst he
        simp only [guardrailGate, if_neg hn]
    | ok v =>
      cases hb : v.blocked with
      | false =>
        refine .inl ⟨.inr ⟨v, rfl, hb⟩, fun event he => ?_⟩
        subst he
        simp only [guardrailGate, if_neg hn, hb, Bool.false_eq_true, if_false]
      | true =>
        refine .inr ⟨fun h => ?_, fun event he => .inr ⟨"blocked by guardrail: " ++ v.reason.getD "None", by simp, ?_⟩⟩
        · rcases h with h | ⟨u, h, hu⟩
          · exact h hg
          · cases h; rw [hb] at hu; cases hu
        · subst he
          simp only [guardrailGate, if_neg hn, hb, if_true]
  · refine .inl ⟨.inl hg, fun event he => ?_⟩
    subst he
    exact if_pos hg

/-- The guardrail's activity lets a guarded tool's call through exactly where
no guardrail is configured, or Bedrock answers and does not intervene. -/
theorem applyGuardrail_unblocked_iff {guardedTools : List String} {toolUse : ToolUse}
    (hg : toolUse.name ∈ guardedTools) {guardrailId guardrailVersion : String}
    {response : Except Raised GuardrailResponse} :
    Unblocked guardedTools toolUse (applyGuardrail guardrailId guardrailVersion response) ↔
      (guardrailId = "" ∨ guardrailVersion = "") ∨ ∃ r, response = .ok r ∧ r.action ≠ "GUARDRAIL_INTERVENED" := by
  have hun : Unblocked guardedTools toolUse (applyGuardrail guardrailId guardrailVersion response) ↔
      ∃ v, applyGuardrail guardrailId guardrailVersion response = .ok v ∧ v.blocked = false :=
    or_iff_right (not_not.mpr hg)
  rw [hun]
  unfold applyGuardrail
  by_cases hc : guardrailId = "" ∨ guardrailVersion = ""
  · simp only [hc, true_or, iff_true]
    exact ⟨_, rfl, rfl⟩
  · simp only [hc, false_or]
    cases response with
    | error e => exact ⟨fun ⟨_, h, _⟩ => (nomatch h), fun ⟨_, h, _⟩ => (nomatch h)⟩
    | ok r =>
      by_cases ha : r.action = "GUARDRAIL_INTERVENED"
      · refine ⟨fun ⟨v, h, hb⟩ => ?_, fun ⟨r', h, hn⟩ => by cases h; exact absurd ha hn⟩
        replace h : (if r.action = "GUARDRAIL_INTERVENED" then _ else _) = Except.ok v := h
        rw [if_pos ha] at h
        cases h
        cases hb
      · refine ⟨fun _ => ⟨r, rfl, ha⟩, fun _ => ⟨{ blocked := false }, ?_, rfl⟩⟩
        exact if_neg ha

/-! ## Calls -/

variable {approvalFirst : Bool} {policy : Option ApprovalPolicy} {guardedTools : List String}

theorem mem_gates {stored : Option String} {verdict : Except Raised GuardrailVerdict} {c : Callback} :
    c ∈ gates approvalFirst policy guardedTools stored verdict ↔
      c = approvalGate policy stored ∨ c = guardrailGate guardedTools verdict := by
  cases approvalFirst
  · simp [gates, or_comm]
  · simp [gates]

theorem gates_decide (stored : Option String) (verdict : Except Raised GuardrailVerdict) :
    ∀ c ∈ gates approvalFirst policy guardedTools stored verdict, Admits toolUse c ∨ Objects toolUse c := by
  intro c hc
  rcases mem_gates.mp hc with rfl | rfl
  · exact (approvalGate_cases policy stored toolUse).imp And.right And.right
  · exact (guardrailGate_cases guardedTools verdict toolUse).imp And.right And.right

/-- A pass of the gates dispatches the call exactly if neither objects. -/
theorem gates_dispatched_iff (stored : Option String) (verdict : Except Raised GuardrailVerdict) :
    runPass (gates approvalFirst policy guardedTools stored verdict) toolUse = .dispatched ↔
      Approved policy toolUse stored ∧ Unblocked guardedTools toolUse verdict := by
  rw [runPass_dispatched_iff (gates_decide stored verdict)]
  simp only [mem_gates, forall_eq_or_imp, forall_eq]
  rcases approvalGate_cases policy stored toolUse with ⟨ha, hA⟩ | ⟨ha, hO⟩
  · rcases guardrailGate_cases guardedTools verdict toolUse with ⟨hu, hU⟩ | ⟨hu, hO⟩
    · simp only [ha, hA, hu, hU]
    · simp only [ha, hA, hu, not_admits_of_objects hO]
  · simp only [ha, not_admits_of_objects hO, false_and]

/-- The response stored after some passes. -/
def storedAfter (stored : Option String) (passes : List Pass) : Option String :=
  passes.foldl (fun stored pass => pass.response.or stored) stored

theorem toolCall_dispatched {stored : Option String} {passes : List Pass}
    (h : toolCall approvalFirst policy guardedTools toolUse stored passes = .dispatched) :
    ∃ earlier pass rest, passes = earlier ++ pass :: rest ∧
      Approved policy toolUse (storedAfter stored (earlier ++ [pass])) ∧ Unblocked guardedTools toolUse pass.verdict := by
  induction passes generalizing stored with
  | nil => cases h
  | cons pass rest ih =>
    simp only [toolCall] at h
    split at h
    · obtain ⟨earlier, p, after, rfl, ha, hu⟩ := ih h
      exact ⟨pass :: earlier, p, after, rfl, ha, hu⟩
    · obtain ⟨ha, hu⟩ := (gates_dispatched_iff _ _).mp h
      exact ⟨[], pass, rest, rfl, ha, hu⟩

/-- Neither gate is bypassed or undone by the other: a call is dispatched only
by a pass at which the policy does not match it or the decision stored is
"approve", and at which the tool is not guarded or the guardrail's verdict
does not block; and a pass at which neither gate objects dispatches it, with
nothing cancelled. -/
theorem toolCall_gated (approvalFirst : Bool) (policy : Option ApprovalPolicy) (guardedTools : List String)
    (toolUse : ToolUse) (passes : List Pass) :
    (toolCall approvalFirst policy guardedTools toolUse none passes = .dispatched →
      ∃ earlier pass rest, passes = earlier ++ pass :: rest ∧
        Approved policy toolUse (storedAfter none (earlier ++ [pass])) ∧
          Unblocked guardedTools toolUse pass.verdict) ∧
      ∀ stored verdict, Approved policy toolUse stored → Unblocked guardedTools toolUse verdict →
        runPass (gates approvalFirst policy guardedTools stored verdict) toolUse = .dispatched ∧
          (invokeCallbacks (gates approvalFirst policy guardedTools stored verdict) { toolUse }).1.cancelTool = none := by
  refine ⟨toolCall_dispatched, fun stored verdict ha hu => ?_⟩
  have hd : runPass (gates approvalFirst policy guardedTools stored verdict) toolUse = .dispatched :=
    (gates_dispatched_iff _ _).mpr ⟨ha, hu⟩
  have hall := (runPass_dispatched_iff (gates_decide stored verdict)).mp hd
  exact ⟨hd, by rw [invokeCallbacks_admitted hall rfl]⟩

/-- A payment above the threshold, suspended and then approved. -/
theorem toolCall_gated_approved :
    let policy : ApprovalPolicy := ⟨"issue_payment", "amount_usd", .gt, .fin (.ofInt 200 (by decide))⟩
    let toolUse : ToolUse := ⟨"issue_payment", [("request", .dict [("amount_usd", .int 900)])]⟩
    let passes : List Pass := [⟨none, .ok { blocked := false }⟩, ⟨some "approve", .ok { blocked := false }⟩]
    ∃ earlier pass rest, passes = earlier ++ pass :: rest ∧
      Approved (some policy) toolUse (storedAfter none (earlier ++ [pass])) ∧
        Unblocked ["issue_payment"] toolUse pass.verdict :=
  (toolCall_gated true (some ⟨"issue_payment", "amount_usd", .gt, .fin (.ofInt 200 (by decide))⟩)
    ["issue_payment"] ⟨"issue_payment", [("request", .dict [("amount_usd", .int 900)])]⟩
    [⟨none, .ok { blocked := false }⟩, ⟨some "approve", .ok { blocked := false }⟩]).1 (by decide +kernel)

end ControlPlane
