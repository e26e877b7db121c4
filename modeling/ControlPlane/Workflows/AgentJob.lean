import Mathlib.Data.List.AList
import ControlPlane.Lib.Machine
import ControlPlane.Registry.Models

/-!
# The approval loop of a session

The loop of `AgentJobWorkflow._run_native` that answers an agent's
interrupts, as a machine: the agent returns or raises, a signal may arrive at
any time, and a wait is released once its condition holds. Nothing is assumed
of the agent, nor of when signals arrive and waits are released.

What a run should send is said by its history alone (`lastResult`,
`latestDecision`). `approvalLoop_answers`: each response answers the first
interrupt of the result just returned with the latest decision submitted for
it, and the pending approval is the one waited for. `approvalLoop_spends`: no
decision is spent twice as long as the agent does not raise an interrupt
again whose decisions are all spent (`Unspent`); if it does, the old decision
answers it at once (`approvalLoop_spins`).
-/

namespace ControlPlane

open Machine

structure AgentJobInput where
  jobId : String
  tenantId : String
  agentId : String
  agentVersion : ℤ
  prompt : String

/-! ## The agent -/

structure Interrupt where
  id : String
  reason : Value

/-- What `agent.invoke_async` returns. -/
structure AgentResult where
  stopReason : String
  interrupts : List Interrupt
  text : String := ""

/-- `interruptResponse`. -/
structure InterruptResponse where
  interruptId : String
  response : String
  deriving DecidableEq

/-! ## The session -/

structure PendingApproval where
  interruptId : String
  tool : String
  toolInput : Attrs
  policy : String

/-- An event on the session's stream; every one carries the session's job id. -/
structure UIEvent where
  kind : String
  payload : Attrs

inductive Phase
  | invoking
  | waiting (interrupt : Interrupt)
  | finished (stopReason output : String)
  /-- An exception left the workflow's code. -/
  | raised

structure Session where
  phase : Phase := .invoking
  pending : Option PendingApproval := none
  decisions : AList (fun _ : String => String) := ∅
  events : List UIEvent := []
  /-- The responses the agent was resumed with. -/
  sent : List InterruptResponse := []

/-- `reason.get(name, default)`. -/
def getDefault (reason : Attrs) (name : String) (default : Value) : Value := (reason.lookup name).getD default

/-- `interrupt.reason if isinstance(interrupt.reason, dict) else {}`. -/
def Interrupt.reasonDict (interrupt : Interrupt) : Attrs := (asDict interrupt.reason).getD []

/-- The approval an interrupt asks for; a ValidationError if its input is no
dict. -/
def PendingApproval.ofInterrupt (interrupt : Interrupt) : Option PendingApproval := do
  let reason := interrupt.reasonDict
  return {
    interruptId := interrupt.id
    tool := pyStr (getDefault reason "tool" (.str ""))
    toolInput := ← asDict (getDefault reason "input" (.dict []))
    policy := pyStr (getDefault reason "policy" (.str "")) }

inductive Action
  | signal (interruptId decision : String)
  | agentReturns (result : AgentResult)
  | agentRaises
  /-- The wait's condition is found to hold. -/
  | release

/-- The signal `submit_approval`. -/
def Session.submitApproval (s : Session) (interruptId decision : String) : Session :=
  { s with decisions := s.decisions.insert interruptId decision }

/-- The loop's condition, and what it does up to the wait. -/
def Session.onResult (s : Session) (result : AgentResult) : Session :=
  match result.interrupts with
  | interrupt :: _ =>
    if result.stopReason = "interrupt" then
      match PendingApproval.ofInterrupt interrupt with
      | none => { s with phase := .raised }
      | some pending =>
        { s with
          phase := .waiting interrupt
          pending := some pending
          events := s.events ++
            [⟨"approval_pending", [("tool", .str pending.tool), ("tool_input", .dict pending.toolInput)]⟩] }
    else { s with phase := .finished result.stopReason result.text }
  | [] => { s with phase := .finished result.stopReason result.text }

/-- What follows the wait for an interrupt, up to the agent's resumption. -/
def Session.resume (s : Session) (interrupt : Interrupt) (decision : String) : Session :=
  { s with
    phase := .invoking
    pending := none
    events := s.events ++ [⟨"approval_resumed", [("decision", .str decision)]⟩]
    sent := s.sent ++ [⟨interrupt.id, decision⟩] }

def Session.step (s : Session) : Action → Option Session
  | .signal interruptId decision => some (s.submitApproval interruptId decision)
  | .agentReturns result =>
    match s.phase with
    | .invoking => some (s.onResult result)
    | _ => none
  | .agentRaises =>
    match s.phase with
    | .invoking => some { s with phase := .raised }
    | _ => none
  | .release =>
    match s.phase with
    | .waiting interrupt => (s.decisions.lookup interrupt.id).map (s.resume interrupt)
    | _ => none

/-! ## What a step does -/

variable {s s' : Session} {a : Action} {history : List Action}

theorem step_cases (hs : s.step a = some s') :
    (∃ iid decision, a = .signal iid decision ∧ s' = s.submitApproval iid decision) ∨
      (∃ result, a = .agentReturns result ∧ s.phase = .invoking ∧ s' = s.onResult result) ∨
        (a = .agentRaises ∧ s.phase = .invoking ∧ s' = { s with phase := .raised }) ∨
          ∃ interrupt decision, a = .release ∧ s.phase = .waiting interrupt ∧
            s.decisions.lookup interrupt.id = some decision ∧ s' = s.resume interrupt decision := by
  cases a with
  | signal iid decision => cases hs; exact .inl ⟨iid, decision, rfl, rfl⟩
  | agentReturns result =>
    simp only [Session.step] at hs
    split at hs
    · rename_i hp
      cases hs
      exact .inr (.inl ⟨result, rfl, hp, rfl⟩)
    · cases hs
  | agentRaises =>
    simp only [Session.step] at hs
    split at hs
    · rename_i hp
      cases hs
      exact .inr (.inr (.inl ⟨rfl, hp, rfl⟩))
    · cases hs
  | release =>
    simp only [Session.step] at hs
    split at hs
    · rename_i interrupt hp
      obtain ⟨decision, hd, rfl⟩ := Option.map_eq_some_iff.mp hs
      exact .inr (.inr (.inr ⟨interrupt, decision, rfl, hp, hd, rfl⟩))
    · cases hs

/-- A result either pauses the loop at its first interrupt, or leaves it not
waiting. -/
theorem onResult_cases (s : Session) (result : AgentResult) :
    (∃ interrupt pending, result.stopReason = "interrupt" ∧ result.interrupts.head? = some interrupt ∧
      PendingApproval.ofInterrupt interrupt = some pending ∧ (s.onResult result).phase = .waiting interrupt ∧
        (s.onResult result).pending = some pending) ∨
      ((∀ interrupt, (s.onResult result).phase ≠ .waiting interrupt) ∧ (s.onResult result).pending = s.pending) := by
  unfold Session.onResult
  split
  · rename_i interrupt rest hi
    split
    · rename_i hstop
      cases hp : PendingApproval.ofInterrupt interrupt with
      | none => exact .inr ⟨fun _ => Phase.noConfusion, rfl⟩
      | some pending => exact .inl ⟨interrupt, pending, hstop, by rw [hi]; rfl, hp, rfl, rfl⟩
    · exact .inr ⟨fun _ => Phase.noConfusion, rfl⟩
  · exact .inr ⟨fun _ => Phase.noConfusion, rfl⟩

theorem onResult_frame (s : Session) (result : AgentResult) :
    (s.onResult result).decisions = s.decisions ∧ (s.onResult result).sent = s.sent := by
  unfold Session.onResult
  split
  · split
    · cases PendingApproval.ofInterrupt _ <;> exact ⟨rfl, rfl⟩
    · exact ⟨rfl, rfl⟩
  · exact ⟨rfl, rfl⟩

/-! ## What the history says -/

/-- The result the agent returned last. -/
def lastResult (history : List Action) : Option AgentResult :=
  history.reverse.findSome? fun a => match a with | .agentReturns result => some result | _ => none

/-- The decision submitted last for an interrupt. -/
def latestDecision (history : List Action) (interruptId : String) : Option String :=
  history.reverse.findSome? fun a => match a with
    | .signal iid decision => if iid = interruptId then some decision else none
    | _ => none

/-- The signals received for an interrupt. -/
def signalled (history : List Action) (interruptId : String) : ℕ :=
  history.countP fun a => match a with | .signal iid _ => iid = interruptId | _ => false

/-- How often the agent was resumed for an interrupt. -/
def Session.resumed (s : Session) (interruptId : String) : ℕ := s.sent.countP fun r => r.interruptId = interruptId

theorem lastResult_snoc (history : List Action) (a : Action) :
    lastResult (history ++ [a]) = match a with | .agentReturns result => some result | _ => lastResult history := by
  cases a <;> simp [lastResult]

theorem latestDecision_snoc (history : List Action) (a : Action) (iid : String) :
    latestDecision (history ++ [a]) iid = match a with
      | .signal jid decision => if jid = iid then some decision else latestDecision history iid
      | _ => latestDecision history iid := by
  cases a with
  | signal jid decision =>
    by_cases h : jid = iid <;> simp [latestDecision, h]
  | _ => simp [latestDecision]

theorem signalled_snoc (history : List Action) (a : Action) (iid : String) :
    signalled (history ++ [a]) iid = signalled history iid + match a with
      | .signal jid _ => if jid = iid then 1 else 0
      | _ => 0 := by
  cases a <;> simp [signalled, List.countP_append, List.countP_cons]

theorem resumed_resume (s : Session) (interrupt : Interrupt) (decision iid : String) :
    (s.resume interrupt decision).resumed iid = s.resumed iid + if interrupt.id = iid then 1 else 0 := by
  simp [Session.resumed, Session.resume, List.countP_append, List.countP_cons]

/-! ## Answers -/

/-- What the loop keeps of its history. -/
structure LoopInv (history : List Action) (s : Session) : Prop where
  decisions : ∀ iid, s.decisions.lookup iid = latestDecision history iid
  waiting : ∀ interrupt, s.phase = .waiting interrupt →
    (∃ result, lastResult history = some result ∧ result.stopReason = "interrupt" ∧
      result.interrupts.head? = some interrupt) ∧
    ∃ pending, s.pending = some pending ∧ PendingApproval.ofInterrupt interrupt = some pending
  idle : (∀ interrupt, s.phase ≠ .waiting interrupt) → s.pending = none

theorem loopInv_step (hI : LoopInv history s) (hs : s.step a = some s') : LoopInv (history ++ [a]) s' := by
  obtain ⟨iid, decision, rfl, rfl⟩ | ⟨result, rfl, hp, rfl⟩ | ⟨rfl, hp, rfl⟩ | ⟨interrupt, decision, rfl, hp, hd, rfl⟩ :=
    step_cases hs
  · refine ⟨fun jid => ?_, fun interrupt hi => ?_, hI.idle⟩
    · rw [latestDecision_snoc]
      by_cases h : iid = jid
      · subst h; simp [Session.submitApproval, AList.lookup_insert]
      · simp only [Session.submitApproval, h, if_false]
        rw [AList.lookup_insert_ne (Ne.symm h), hI.decisions]
    · rw [lastResult_snoc]
      exact hI.waiting interrupt hi
  · have hidle : s.pending = none := hI.idle fun interrupt h => by rw [hp] at h; cases h
    refine ⟨fun jid => ?_, fun interrupt hi => ?_, fun hn => ?_⟩
    · rw [latestDecision_snoc, (onResult_frame s result).1]
      exact hI.decisions jid
    · rw [lastResult_snoc]
      obtain ⟨i, p, hstop, hhead, hof, hw, hpend⟩ | ⟨hn, -⟩ := onResult_cases s result
      · rw [hw] at hi
        cases hi
        exact ⟨⟨result, rfl, hstop, hhead⟩, p, hpend, hof⟩
      · exact absurd hi (hn interrupt)
    · obtain ⟨i, p, -, -, -, hw, -⟩ | ⟨-, hpend⟩ := onResult_cases s result
      · exact absurd hw (hn i)
      · rw [hpend, hidle]
  · refine ⟨fun jid => ?_, fun interrupt hi => ?_, fun hn => ?_⟩
    · rw [latestDecision_snoc]
      exact hI.decisions jid
    · cases hi
    · exact hI.idle fun interrupt h => by rw [hp] at h; cases h
  · refine ⟨fun jid => ?_, fun i hi => ?_, fun hn => rfl⟩
    · rw [latestDecision_snoc]
      exact hI.decisions jid
    · cases hi

theorem loopInv_run (hr : run Session.step {} history = some s) : LoopInv history s :=
  run_keeps (I := LoopInv) ⟨fun _ => rfl, fun _ h => Phase.noConfusion h, fun _ => rfl⟩ (fun _ _ _ _ => loopInv_step) hr

/-- An action that resumes the agent. -/
def Action.isRelease : Action → Bool
  | .release => true
  | _ => false

/-- Only a release sends a response. -/
theorem sent_step (hs : s.step a = some s') :
    s'.sent.length = s.sent.length + if a.isRelease then 1 else 0 := by
  obtain ⟨iid, decision, rfl, rfl⟩ | ⟨result, rfl, -, rfl⟩ | ⟨rfl, -, rfl⟩ | ⟨interrupt, decision, rfl, -, -, rfl⟩ :=
    step_cases hs
  · rfl
  · rw [(onResult_frame s result).2]; rfl
  · rfl
  · simp [Session.resume, Action.isRelease]

/-- What the loop does, said of the history that led to a state. -/
structure LoopSpec (history : List Action) (s : Session) : Prop where
  /-- A release answers the first interrupt of the result just returned, with
  the latest decision submitted for it. -/
  answers : ∀ earlier rest, history = earlier ++ .release :: rest → ∃ s₁ s₂ result interrupt decision,
    run Session.step {} earlier = some s₁ ∧ s₁.step .release = some s₂ ∧
      lastResult earlier = some result ∧ result.interrupts.head? = some interrupt ∧
        latestDecision earlier interrupt.id = some decision ∧ s₂.sent = s₁.sent ++ [⟨interrupt.id, decision⟩]
  /-- Nothing else sends the agent anything. -/
  sends : s.sent.length = history.countP Action.isRelease
  /-- A wait is released exactly when a decision for its interrupt is there. -/
  releases : ∀ interrupt, s.phase = .waiting interrupt →
    (s.step .release = none ↔ latestDecision history interrupt.id = none)
  /-- A signal for another interrupt changes nothing of that. -/
  others : ∀ interrupt iid decision s', s.phase = .waiting interrupt → iid ≠ interrupt.id →
    s.step (.signal iid decision) = some s' →
      s'.phase = .waiting interrupt ∧ (s'.step .release = none ↔ s.step .release = none)
  /-- While the loop waits, the pending approval is the one it waits for. -/
  pending : ∀ interrupt, s.phase = .waiting interrupt →
    (∃ result, lastResult history = some result ∧ result.interrupts.head? = some interrupt) ∧
      ∃ pending, s.pending = some pending ∧ pending.interruptId = interrupt.id ∧
        PendingApproval.ofInterrupt interrupt = some pending
  /-- There is no pending approval where the loop does not wait. -/
  idle : (∀ interrupt, s.phase ≠ .waiting interrupt) → s.pending = none

theorem ofInterrupt_id {interrupt : Interrupt} {pending : PendingApproval}
    (h : PendingApproval.ofInterrupt interrupt = some pending) : pending.interruptId = interrupt.id := by
  simp only [PendingApproval.ofInterrupt, Option.bind_eq_bind, Option.bind_eq_some_iff, Option.pure_def,
    Option.some.injEq] at h
  obtain ⟨_, -, rfl⟩ := h
  rfl

theorem release_none_iff {interrupt : Interrupt} (hp : s.phase = .waiting interrupt) :
    s.step .release = none ↔ s.decisions.lookup interrupt.id = none := by
  simp only [Session.step, hp, Option.map_eq_none_iff]

/-- For every agent and every order of signals, the loop sends the agent only
the answers it was given for what it waits for, and shows what that is. -/
theorem approvalLoop_answers (history : List Action) (s : Session) (hr : run Session.step {} history = some s) :
    LoopSpec history s := by
  have hI := loopInv_run hr
  refine ⟨fun earlier rest h => ?_, ?_, fun interrupt hp => ?_, fun interrupt iid decision s' hp hne hs => ?_,
    fun interrupt hp => ?_, hI.idle⟩
  · rw [h] at hr
    obtain ⟨s₁, s₂, h₁, h₂, -⟩ := run_split hr
    have hI₁ := loopInv_run h₁
    obtain ⟨_, _, ha, -⟩ | ⟨_, ha, -⟩ | ⟨ha, -⟩ | ⟨interrupt, decision, -, hp, hd, hs⟩ := step_cases h₂
    · cases ha
    · cases ha
    · cases ha
    · obtain ⟨⟨result, hl, -, hhead⟩, -⟩ := hI₁.waiting interrupt hp
      exact ⟨s₁, s₂, result, interrupt, decision, h₁, h₂, hl, hhead, by rw [← hI₁.decisions, hd], by rw [hs]; rfl⟩
  · exact run_keeps (I := fun h s => s.sent.length = h.countP Action.isRelease) rfl
      (fun h s a s' ih hs => by rw [sent_step hs, ih, List.countP_append]; simp [List.countP_cons]) hr
  · rw [release_none_iff hp, hI.decisions]
  · cases hs
    refine ⟨hp, ?_⟩
    rw [release_none_iff hp, release_none_iff (s := s.submitApproval iid decision) hp]
    simp only [Session.submitApproval, AList.lookup_insert_ne (Ne.symm hne)]
  · obtain ⟨⟨result, hl, -, hhead⟩, pending, hpend, hof⟩ := hI.waiting interrupt hp
    exact ⟨⟨result, hl, hhead⟩, pending, hpend, ofInterrupt_id hof, hof⟩

/-- A payment paused, a signal for something else, and the approval. -/
theorem approvalLoop_answers_approved :
    let reason : Value := .dict [("tool", .str "issue_payment"), ("input", .dict []), ("policy", .str "amount_usd gt 200.0")]
    let history : List Action := [.agentReturns ⟨"interrupt", [⟨"i-1", reason⟩], ""⟩, .signal "i-2" "approve",
      .signal "i-1" "approve", .release, .agentReturns ⟨"end_turn", [], "paid"⟩]
    ∃ s, run Session.step {} history = some s ∧ LoopSpec history s :=
  ⟨_, rfl, approvalLoop_answers _ _ rfl⟩

/-! ## Decisions spent -/

/-- The result raises no interrupt again for which every decision submitted
has been spent: if it pauses the loop, its first interrupt is new to it, or
has had more signals than the agent has been resumed for it. -/
def Unspent (history : List Action) (s : Session) (result : AgentResult) : Prop :=
  result.stopReason = "interrupt" → ∀ interrupt, result.interrupts.head? = some interrupt →
    s.resumed interrupt.id = 0 ∨ s.resumed interrupt.id < signalled history interrupt.id

/-- What the loop keeps as long as results are unspent. -/
structure SpendInv (history : List Action) (s : Session) : Prop where
  spent : ∀ iid, s.resumed iid ≤ signalled history iid
  decided : ∀ iid decision, s.decisions.lookup iid = some decision → 0 < signalled history iid
  waiting : ∀ interrupt, s.phase = .waiting interrupt →
    s.resumed interrupt.id = 0 ∨ s.resumed interrupt.id < signalled history interrupt.id

theorem signalled_le_snoc (history : List Action) (a : Action) (iid : String) :
    signalled history iid ≤ signalled (history ++ [a]) iid := by
  rw [signalled_snoc]
  exact Nat.le_add_right _ _

theorem spendInv_step (hI : SpendInv history s) (hu : ∀ result, a = .agentReturns result → Unspent history s result)
    (hs : s.step a = some s') : SpendInv (history ++ [a]) s' := by
  have hle := signalled_le_snoc history a
  have wait : ∀ interrupt : Interrupt, s.resumed interrupt.id = 0 ∨ s.resumed interrupt.id < signalled history interrupt.id →
      s.resumed interrupt.id = 0 ∨ s.resumed interrupt.id < signalled (history ++ [a]) interrupt.id :=
    fun interrupt h => h.imp_right fun h => lt_of_lt_of_le h (hle _)
  obtain ⟨iid, decision, rfl, rfl⟩ | ⟨result, rfl, hp, rfl⟩ | ⟨rfl, hp, rfl⟩ | ⟨interrupt, decision, rfl, hp, hd, rfl⟩ :=
    step_cases hs
  · refine ⟨fun jid => (hI.spent jid).trans (hle jid), fun jid d hd => ?_, fun i hi => wait i (hI.waiting i hi)⟩
    by_cases h : iid = jid
    · rw [signalled_snoc]
      simp [h]
    · simp only [Session.submitApproval, AList.lookup_insert_ne (Ne.symm h)] at hd
      exact lt_of_lt_of_le (hI.decided jid d hd) (hle jid)
  · obtain ⟨hdec, hsent⟩ := onResult_frame s result
    have hres : ∀ iid, (s.onResult result).resumed iid = s.resumed iid := fun iid => by
      rw [Session.resumed, hsent]; rfl
    refine ⟨fun jid => ?_, fun jid d hd => ?_, fun i hi => ?_⟩
    · rw [hres]; exact (hI.spent jid).trans (hle jid)
    · rw [hdec] at hd
      exact lt_of_lt_of_le (hI.decided jid d hd) (hle jid)
    · rw [hres]
      obtain ⟨j, p, hstop, hhead, -, hw, -⟩ | ⟨hn, -⟩ := onResult_cases s result
      · rw [hw] at hi
        cases hi
        exact wait i (hu result rfl hstop i hhead)
      · exact absurd hi (hn i)
  · exact ⟨fun jid => (hI.spent jid).trans (hle jid), fun jid d hd => lt_of_lt_of_le (hI.decided jid d hd) (hle jid),
      fun i hi => Phase.noConfusion hi⟩
  · refine ⟨fun jid => ?_, fun jid d hd => lt_of_lt_of_le (hI.decided jid d hd) (hle jid),
      fun i hi => Phase.noConfusion hi⟩
    rw [resumed_resume]
    split
    · rename_i h
      subst h
      refine le_trans ?_ (hle _)
      have hpos := hI.decided _ _ hd
      rcases hI.waiting interrupt hp with h0 | hlt
      · omega
      · omega
    · exact (hI.spent jid).trans (hle jid)

/-- In every run in which each result is unspent when it is returned, the
agent is never resumed for an interrupt more often than decisions were
submitted for it. -/
theorem approvalLoop_spends (history : List Action) (s : Session) (hr : run Session.step {} history = some s)
    (unspent : Along Session.step (fun h s a => ∀ result, a = .agentReturns result → Unspent h s result) {} history)
    (interruptId : String) : s.resumed interruptId ≤ signalled history interruptId :=
  (run_keeps_along (I := SpendInv)
    ⟨fun _ => Nat.le_refl _, fun _ _ h => absurd (h.symm.trans (AList.lookup_empty _)) (Option.some_ne_none _),
      fun _ h => Phase.noConfusion h⟩
    (fun _ _ _ _ hI hu hs => spendInv_step hI hu hs) unspent hr).spent interruptId

/-- A payment paused and denied, and then another one. -/
theorem approvalLoop_spends_denied :
    let history : List Action := [.agentReturns ⟨"interrupt", [⟨"i-1", .null⟩], ""⟩, .signal "i-1" "no", .release,
      .agentReturns ⟨"interrupt", [⟨"i-2", .null⟩], ""⟩]
    ∃ s, run Session.step {} history = some s ∧ s.resumed "i-1" ≤ signalled history "i-1" := by
  refine ⟨_, rfl, approvalLoop_spends _ _ rfl ?_ "i-1"⟩
  refine along_cons (fun _ e _ i h => ?_) fun s₁ h₁ => along_cons (fun _ e => nomatch e) fun s₂ h₂ =>
    along_cons (fun _ e => nomatch e) fun s₃ h₃ => along_cons (fun _ e _ i h => ?_) fun _ _ => along_nil _ _
  · cases e; cases h
    exact .inl rfl
  · cases e; cases h; cases h₁; cases h₂; cases h₃
    exact .inl (by decide)

/-- An agent that raises the interrupt again each time it is resumed: the one
decision, here an empty text, answers it again and again. -/
theorem approvalLoop_spins :
    let pause : Action := .agentReturns ⟨"interrupt", [⟨"i-1", .null⟩], ""⟩
    let history : List Action := [pause, .signal "i-1" "", .release, pause, .release, pause, .release]
    ∃ s, run Session.step {} history = some s ∧ s.resumed "i-1" = 3 ∧ signalled history "i-1" = 1 :=
  ⟨_, rfl, by decide, by decide⟩

end ControlPlane
