import ControlPlane.Workflows.JobRun

/-!
# Runs and their tool calls

A run of a job together with its agent's tool calls (`SupervisedRun.step`): in
the native lane, while the agent is invoked, it may pass any call to the
callbacks any number of times. Of the agent it is only assumed that what it
has stored for a call's interrupt is a response it was sent for it.

`dispatch_cleared`: a call is dispatched only after a human has approved that
very call's interrupt, where the policy of the package that the run resolved
asks for it, and after a verdict that does not block it, where the tool is
guarded.
-/

namespace ControlPlane

open Machine

/-- A call of a tool, with the interrupt that the approval gate raises for it. -/
structure Dispatch where
  interruptId : String
  toolUse : ToolUse

structure SupervisedRun where
  run : JobRun := {}
  /-- The calls whose activities were scheduled. -/
  dispatched : List Dispatch := []

inductive SupervisedAction
  | job (a : JobAction)
  /-- The callbacks run for a call: with the response the agent has stored for
  its interrupt, and what the guardrail's activity gives. -/
  | pass (call : Dispatch) (stored : Option String) (verdict : Except Raised GuardrailVerdict)

/-- The run's own actions. -/
def SupervisedAction.jobAction : SupervisedAction → Option JobAction
  | job a => some a
  | pass _ _ _ => none

def jobActions (history : List SupervisedAction) : List JobAction := history.filterMap SupervisedAction.jobAction

namespace SupervisedRun

/-- The call is passed to the callbacks of the agent that was set up. -/
def pass (approvalFirst : Bool) (s : SupervisedRun) (setup : AgentSetup) (call : Dispatch) (stored : Option String)
    (verdict : Except Raised GuardrailVerdict) : SupervisedRun :=
  match runPass (gates approvalFirst setup.approvalPolicy guardedTools stored verdict) call.toolUse with
  | .dispatched => { s with dispatched := s.dispatched ++ [call] }
  | .cancelled _ => s
  | .suspended => s
  | .failed => s

def step (approvalFirst : Bool) (job : AgentJobInput) (s : SupervisedRun) : SupervisedAction → Option SupervisedRun
  | .job a => (s.run.step job a).map fun run => { s with run }
  | .pass call stored verdict =>
    match s.run.stage, s.run.session.phase with
    | .native _ setup, .invoking =>
      if ∀ response ∈ stored, ⟨call.interruptId, response⟩ ∈ s.run.session.sent then
        some (s.pass approvalFirst setup call stored verdict)
      else none
    | _, _ => none

end SupervisedRun

/-! ## What was sent -/

section

variable {job : AgentJobInput} {s s' : JobRun} {a : JobAction} {history : List JobAction}

theorem traceInv_run (hr : run (JobRun.step job) {} history = some s) : JobRun.TraceInv job history s := by
  refine run_keeps (I := JobRun.TraceInv job) ⟨fun _ _ hl => ?_, ?_⟩ (fun _ _ _ _ => JobRun.traceInv_step) hr
  · cases hl
  · exact ⟨rfl, rfl, fun _ => List.not_mem_nil⟩

/-- Entering a lane sends nothing. -/
theorem sent_enterLane (s : JobRun) (package : AgentPackage) (recalled : List String) :
    (s.enterLane job package recalled).session.sent = s.session.sent := by
  unfold JobRun.enterLane
  by_cases hn : recalled = []
  · simp only [hn, if_true]
    split
    · rfl
    · split
      · rfl
      · rfl
  · simp only [hn, if_false]
    split
    · rfl
    · split
      · rfl
      · rfl

/-- What a step sends is a decision there is. -/
theorem sent_of_step (hs : JobRun.Steps job s a s') {r : InterruptResponse} (hr : r ∈ s'.session.sent) :
    r ∈ s.session.sent ∨ s.session.decisions.lookup r.interruptId = some r.response := by
  cases hs with
  | signal interruptId decision => exact .inl hr
  | @session a package setup session hp hstep =>
    have hafter : (s.afterSession job session).session.sent = session.sent := by
      unfold JobRun.afterSession
      split
      · rfl
      · rfl
      · rfl
    rw [hafter] at hr
    obtain ⟨iid, d, rfl, rfl⟩ | ⟨result, rfl, -, rfl⟩ | ⟨rfl, -, rfl⟩ | ⟨interrupt, d, rfl, -, hd, rfl⟩ := step_cases hstep
    · exact .inl hr
    · rw [(onResult_frame _ result).2] at hr
      exact .inl hr
    · exact .inl hr
    · rcases List.mem_append.mp hr with hr | hr
      · exact .inl hr
      · cases List.mem_singleton.mp hr
        exact .inr hd
  | @recalled result package hp =>
    rw [sent_enterLane] at hr
    exact .inl hr
  | guardrail tool verdict hp hi =>
    left
    unfold JobRun.onVerdict at hr
    split at hr
    · split at hr
      · exact hr
      · exact hr
    · exact hr
  | _ => exact .inl hr

/-- The agent that was set up asks for approval as its package says. -/
def PolicyKept (s : JobRun) : Prop :=
  ∀ package setup, s.stage = .native package setup → setup.approvalPolicy = package.approvalPolicy

theorem agentSetup_policy {package : AgentPackage} {recalled : List String} {setup : AgentSetup}
    (h : agentSetup job package recalled = .ok setup) : setup.approvalPolicy = package.approvalPolicy := by
  simp only [agentSetup, bind, Except.bind] at h
  split at h
  · cases h
  split at h
  · cases h
  -- the output model, if the package names one
  split at h
  · cases h
    rfl
  · split at h
    · cases h
    · cases h
      rfl

theorem policyKept_step (hs : JobRun.Steps job s a s') (hI : PolicyKept s) : PolicyKept s' := by
  intro package setup hp
  cases hs with
  | signal interruptId decision => exact hI package setup hp
  | @session a _ _ session hn hstep =>
    unfold JobRun.afterSession at hp
    split at hp
    · cases hp
    · cases hp
    · exact hI package setup hp
  | @recalled result package' hn =>
    unfold JobRun.enterLane at hp
    generalize result.toOption.getD [] = recalled at hp
    generalize (if recalled = [] then s else s.publish (.memoryRecall recalled)) = s₁ at hp
    simp only at hp
    split at hp
    · cases hp
    · split at hp
      · rename_i hok
        cases hp
        exact agentSetup_policy hok
      · cases hp
  | guardrail tool verdict hn hi =>
    unfold JobRun.onVerdict at hp
    split at hp
    · split at hp
      · exact hI package setup hp
      · exact hI package setup hp
    · exact hI package setup hp
  | _ => cases hp

end

/-! ## What was dispatched -/

namespace SupervisedRun

variable {approvalFirst : Bool} {job : AgentJobInput} {s s' : SupervisedRun} {a : SupervisedAction}
  {history : List SupervisedAction}

/-- The steps of a run with its calls. -/
inductive Steps (approvalFirst : Bool) (job : AgentJobInput) (s : SupervisedRun) : SupervisedAction → SupervisedRun → Prop
  | job {a : JobAction} {run : JobRun} (hs : JobRun.Steps job s.run a run) :
    Steps approvalFirst job s (.job a) { s with run }
  | pass (call : Dispatch) {stored : Option String} (verdict : Except Raised GuardrailVerdict) {package : AgentPackage}
    {setup : AgentSetup} (hp : s.run.stage = .native package setup)
    (hstored : ∀ response ∈ stored, ⟨call.interruptId, response⟩ ∈ s.run.session.sent) :
    Steps approvalFirst job s (.pass call stored verdict) (s.pass approvalFirst setup call stored verdict)

theorem steps_of_step (hs : s.step approvalFirst job a = some s') : Steps approvalFirst job s a s' := by
  cases a with
  | job a =>
    obtain ⟨run, hr, rfl⟩ := Option.map_eq_some_iff.mp hs
    exact .job (JobRun.steps_of_step hr)
  | pass call stored verdict =>
    simp only [step] at hs
    split at hs
    · rename_i hp hi
      split at hs
      · rename_i hstored
        cases hs
        exact .pass call verdict hp hstored
      · cases hs
    · cases hs

/-- A pass leaves the run as it is, and dispatches the call if both gates let it
through. -/
theorem pass_cases (approvalFirst : Bool) (s : SupervisedRun) (setup : AgentSetup) (call : Dispatch) (stored : Option String)
    (verdict : Except Raised GuardrailVerdict) :
    (Approved setup.approvalPolicy call.toolUse stored ∧ Unblocked guardedTools call.toolUse verdict ∧
      s.pass approvalFirst setup call stored verdict = { s with dispatched := s.dispatched ++ [call] }) ∨
      s.pass approvalFirst setup call stored verdict = s := by
  unfold pass
  split
  · rename_i hd
    obtain ⟨ha, hu⟩ := (gates_dispatched_iff stored verdict).mp hd
    exact .inl ⟨ha, hu, rfl⟩
  · exact .inr rfl
  · exact .inr rfl
  · exact .inr rfl

/-- The call went to the callbacks at a point of the run at which its package
was resolved and is not hosted, a human had approved the call's own interrupt if
the package's policy matches the call, and the guardrail, if it guards the tool,
gave a verdict that does not block it. -/
def Cleared (history : List SupervisedAction) (call : Dispatch) : Prop :=
  ∃ earlier stored verdict rest package, history = earlier ++ .pass call stored verdict :: rest ∧
    JobRun.Resolved (jobActions earlier) package ∧ package.tier ≠ .hosted ∧
    (∀ p, package.approvalPolicy = some p → p.requiresApproval call.toolUse.name call.toolUse.input = true →
      JobRun.Decided (jobActions earlier) call.interruptId "approve") ∧
    (call.toolUse.name ∈ guardedTools → ∃ v, verdict = .ok v ∧ v.blocked = false)

theorem Cleared.snoc {call : Dispatch} (h : Cleared history call) : Cleared (history ++ [a]) call := by
  obtain ⟨earlier, stored, verdict, rest, package, rfl, hr⟩ := h
  exact ⟨earlier, stored, verdict, rest ++ [a], package, by simp, hr⟩

structure Invariant (job : AgentJobInput) (history : List SupervisedAction) (s : SupervisedRun) : Prop where
  run : Machine.run (JobRun.step job) {} (jobActions history) = some s.run
  policy : PolicyKept s.run
  sent : ∀ r ∈ s.run.session.sent, JobRun.Decided (jobActions history) r.interruptId r.response
  dispatched : ∀ call ∈ s.dispatched, Cleared history call

theorem invariant_step (hI : Invariant job history s) (hs : s.step approvalFirst job a = some s') :
    Invariant job (history ++ [a]) s' := by
  have hjobs : jobActions (history ++ [a]) = jobActions history ++ jobActions [a] := List.filterMap_append
  cases steps_of_step hs with
  | @job a run' hstep =>
    have hj : jobActions [SupervisedAction.job a] = [a] := rfl
    refine ⟨?_, policyKept_step hstep hI.policy, fun r hr => ?_, fun call hc => (hI.dispatched call hc).snoc⟩
    · rw [hjobs, hj]
      obtain ⟨run, hr, he⟩ := Option.map_eq_some_iff.mp hs
      have he : run = run' := congrArg SupervisedRun.run he
      exact run_snoc.mpr ⟨s.run, hI.run, he ▸ hr⟩
    · rw [hjobs, hj]
      rcases sent_of_step hstep hr with hr | hd
      · exact JobRun.decided_snoc (hI.sent r hr)
      · exact JobRun.decided_snoc ((traceInv_run hI.run).decisions _ _ hd)
  | @pass call stored verdict package setup hp hstored =>
    have hj : jobActions [SupervisedAction.pass call stored verdict] = [] := rfl
    have hkeep : jobActions (history ++ [SupervisedAction.pass call stored verdict]) = jobActions history := by
      rw [hjobs, hj, List.append_nil]
    obtain ⟨ha, hu, he⟩ | he := pass_cases approvalFirst s setup call stored verdict
    · rw [he]
      refine ⟨hkeep ▸ hI.run, hI.policy, hkeep ▸ hI.sent, fun c hc => ?_⟩
      rcases List.mem_append.mp hc with hc | hc
      · exact (hI.dispatched c hc).snoc
      · cases List.mem_singleton.mp hc
        have hpub := (traceInv_run hI.run).published
        simp only [JobRun.Published, hp] at hpub
        obtain ⟨hr, ht, -⟩ := hpub
        refine ⟨history, stored, verdict, [], package, rfl, (hr package).mpr rfl, ht, fun p hpol hreq => ?_, fun hg => ?_⟩
        · rw [hI.policy package setup hp] at ha
          rcases ha with ha | rfl
          · exact absurd (ha p hpol) (by simp [hreq])
          · exact hI.sent _ (hstored "approve" rfl)
        · exact hu.resolve_left (not_not.mpr hg)
    · rw [he]
      exact ⟨hkeep ▸ hI.run, hI.policy, hkeep ▸ hI.sent, fun c hc => (hI.dispatched c hc).snoc⟩

end SupervisedRun

/-- Whatever the agent calls, and in whatever order the signals arrive: every
call that is dispatched was cleared. -/
theorem dispatch_cleared (approvalFirst : Bool) (job : AgentJobInput) (history : List SupervisedAction)
    (s : SupervisedRun) (hr : run (SupervisedRun.step approvalFirst job) {} history = some s) :
    ∀ call ∈ s.dispatched, SupervisedRun.Cleared history call :=
  (run_keeps (I := SupervisedRun.Invariant job)
    ⟨rfl, fun _ _ h => JobStage.noConfusion h, fun _ hr => absurd hr List.not_mem_nil,
      fun _ hc => absurd hc List.not_mem_nil⟩
    (fun _ _ _ _ => SupervisedRun.invariant_step) hr).dispatched

def refundAgent : AgentPackage where
  agentId := "refund-desk"
  version := 3
  name := "Refund Desk"
  tier := .customTools
  model := "bedrock-claude"
  systemPrompt := "Refund what is due."
  tools := ["issue_payment"]
  approvalPolicy := some ⟨"issue_payment", "amount_usd", .gt, .fin (.ofInt 200 (by decide))⟩

def refundJob : AgentJobInput := ⟨"session-refund-desk-1", "acme", "refund-desk", 3, "Refund C-1."⟩

def refund : Dispatch := ⟨"i-1", "issue_payment", [("request", .dict [("amount_usd", .int 900)])]⟩

/-- A refund that waits for its approval, and the same call under another
interrupt, which stays suspended. -/
def refunded : List SupervisedAction :=
  [.job (.marked (.ok ())), .job (.resolved (.ok refundAgent)), .job (.recalled (.ok [])),
    .pass refund none (.ok { blocked := false }),
    .job (.session (.agentReturns ⟨"interrupt", [⟨"i-1", .dict []⟩], ""⟩)), .job (.session (.signal "i-1" "approve")),
    .job (.session .release), .pass refund (some "approve") (.ok { blocked := false }),
    .pass ⟨"i-2", refund.toolUse⟩ none (.ok { blocked := false })]

theorem dispatch_cleared_refund : ∃ s, run (SupervisedRun.step true refundJob) {} refunded = some s ∧
    s.dispatched = [refund] ∧ ∀ call ∈ s.dispatched, SupervisedRun.Cleared refunded call :=
  ⟨_, rfl, rfl, dispatch_cleared true refundJob refunded _ rfl⟩

end ControlPlane
