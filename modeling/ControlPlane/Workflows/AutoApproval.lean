import ControlPlane.Lib.Fair
import ControlPlane.Workflows.Supervised

/-!
# Approving alongside a run

`result_with_auto_approval` of `scripts/_approval.py`: a client that waits for a
run's result and, every two seconds, asks what the run waits for and approves
it. The run and the client take their steps in any order, and anyone else may
signal (`ApprovedRun.step`).

* `pauses_end`: in every run that goes on, of which the parts are each given
  their turn, every pause ends.
* `responses_sent`: what the agent is resumed with is the client's approval of
  an interrupt it was shown, or was submitted by others.
-/

namespace ControlPlane

open Machine

/-- The run is over: it returned, or raised. -/
def JobRun.ending (s : JobRun) : Option (Except Failure JobOutcome) :=
  match s.stage with
  | .returned outcome => some (.ok outcome)
  | .raised failure => some (.error failure)
  | _ => none

/-- Where the client's loop is. -/
inductive Approver
  /-- In `asyncio.wait`, for the result or until it is time to ask. -/
  | polling
  | querying
  | signalling (pending : PendingApproval)
  /-- It returned what the run did, or raised what it did. -/
  | ended (ending : Except Failure JobOutcome)
  /-- A call raised what the client lets through. -/
  | failed

/-- The client is not done. -/
def Approver.running : Approver → Prop
  | polling => True
  | querying => True
  | signalling _ => True
  | ended _ => False
  | failed => False

structure ApprovedRun where
  run : JobRun := {}
  approver : Approver := .polling

inductive ApprovalAction
  /-- A step of the run, or a signal of someone else. -/
  | job (a : JobAction)
  /-- The wait ends with the result. -/
  | resulted
  /-- The wait ends with an RPCError in the result's place. -/
  | disconnected
  /-- The wait ends without a result. -/
  | timedOut
  | answered
  /-- The query raises an RPCError. -/
  | unanswered
  /-- The query raises anything else. -/
  | queryFailed
  | signalled
  /-- The signal raises an RPCError, whether or not it was delivered. -/
  | unsent (delivered : Bool)

namespace ApprovedRun

/-- The client's approval. -/
def approve (s : ApprovedRun) (pending : PendingApproval) : JobRun := s.run.signal pending.interruptId "approve"

def step (job : AgentJobInput) (s : ApprovedRun) : ApprovalAction → Option ApprovedRun
  | .job a => (s.run.step job a).map fun run => { s with run }
  | .resulted =>
    match s.approver with
    | .polling => s.run.ending.map fun ending => { s with approver := .ended ending }
    | _ => none
  | .disconnected =>
    match s.approver with
    | .polling => some { s with approver := .failed }
    | _ => none
  | .timedOut =>
    match s.approver with
    | .polling => some { s with approver := .querying }
    | _ => none
  | .answered =>
    match s.approver with
    | .querying => some { s with approver := s.run.session.pending.elim .polling .signalling }
    | _ => none
  | .unanswered =>
    match s.approver with
    | .querying => some { s with approver := .polling }
    | _ => none
  | .queryFailed =>
    match s.approver with
    | .querying => some { s with approver := .failed }
    | _ => none
  | .signalled =>
    match s.approver, s.run.ending with
    | .signalling pending, none => some { run := s.approve pending, approver := .polling }
    | _, _ => none
  | .unsent delivered =>
    match s.approver with
    | .signalling pending =>
      -- a run that is over takes no signal
      if delivered ∧ s.run.ending.isNone then some { run := s.approve pending, approver := .failed }
      else some { s with approver := .failed }
    | _ => none

/-- The steps of a run and its client. -/
inductive Steps (job : AgentJobInput) (s : ApprovedRun) : ApprovalAction → ApprovedRun → Prop
  | job {a : JobAction} {run : JobRun} (hs : JobRun.Steps job s.run a run) : Steps job s (.job a) { s with run }
  | resulted (ha : s.approver = .polling) {ending : Except Failure JobOutcome} (he : s.run.ending = some ending) :
    Steps job s .resulted { s with approver := .ended ending }
  | disconnected (ha : s.approver = .polling) : Steps job s .disconnected { s with approver := .failed }
  | timedOut (ha : s.approver = .polling) : Steps job s .timedOut { s with approver := .querying }
  | answered (ha : s.approver = .querying) :
    Steps job s .answered { s with approver := s.run.session.pending.elim .polling .signalling }
  | unanswered (ha : s.approver = .querying) : Steps job s .unanswered { s with approver := .polling }
  | queryFailed (ha : s.approver = .querying) : Steps job s .queryFailed { s with approver := .failed }
  | signalled {pending : PendingApproval} (ha : s.approver = .signalling pending) (he : s.run.ending = none) :
    Steps job s .signalled { run := s.approve pending, approver := .polling }
  | lost {pending : PendingApproval} (ha : s.approver = .signalling pending) (he : s.run.ending = none) :
    Steps job s (.unsent true) { run := s.approve pending, approver := .failed }
  | unsent (delivered : Bool) {pending : PendingApproval} (ha : s.approver = .signalling pending) :
    Steps job s (.unsent delivered) { s with approver := .failed }

variable {job : AgentJobInput} {s s' : ApprovedRun} {a : ApprovalAction} {history : List ApprovalAction}

theorem steps_of_step (hs : s.step job a = some s') : Steps job s a s' := by
  cases a with
  | job a =>
    obtain ⟨run, hr, rfl⟩ := Option.map_eq_some_iff.mp hs
    exact .job (JobRun.steps_of_step hr)
  | resulted =>
    simp only [step] at hs
    split at hs
    · rename_i ha
      obtain ⟨ending, he, rfl⟩ := Option.map_eq_some_iff.mp hs
      exact .resulted ha he
    · cases hs
  | disconnected =>
    simp only [step] at hs
    split at hs
    · rename_i ha
      cases hs
      exact .disconnected ha
    · cases hs
  | timedOut =>
    simp only [step] at hs
    split at hs
    · rename_i ha
      cases hs
      exact .timedOut ha
    · cases hs
  | answered =>
    simp only [step] at hs
    split at hs
    · rename_i ha
      cases hs
      exact .answered ha
    · cases hs
  | unanswered =>
    simp only [step] at hs
    split at hs
    · rename_i ha
      cases hs
      exact .unanswered ha
    · cases hs
  | queryFailed =>
    simp only [step] at hs
    split at hs
    · rename_i ha
      cases hs
      exact .queryFailed ha
    · cases hs
  | signalled =>
    simp only [step] at hs
    split at hs
    · rename_i ha he
      cases hs
      exact .signalled ha he
    · cases hs
  | unsent delivered =>
    simp only [step] at hs
    split at hs
    · rename_i ha
      split at hs
      · rename_i hd
        cases hs
        obtain ⟨rfl, he⟩ := hd
        exact .lost ha (Option.isNone_iff_eq_none.mp he)
      · cases hs
        exact .unsent delivered ha
    · cases hs

end ApprovedRun

/-! ## The run's pauses -/

namespace JobRun

variable {job : AgentJobInput} {s s' : JobRun} {a : JobAction} {interrupt : Interrupt}

/-- The run waits for the interrupt, and shows that it does. -/
structure WaitsFor (s : JobRun) (interrupt : Interrupt) : Prop where
  native : ∃ package setup, s.stage = .native package setup
  waiting : s.session.phase = .waiting interrupt
  shown : ∃ pending, s.session.pending = some pending ∧ pending.interruptId = interrupt.id

theorem WaitsFor.ending (hw : s.WaitsFor interrupt) : s.ending = none := by
  obtain ⟨package, setup, hn⟩ := hw.native
  rw [JobRun.ending, hn]

theorem WaitsFor.signal (hw : s.WaitsFor interrupt) (interruptId decision : String) :
    (s.signal interruptId decision).WaitsFor interrupt := ⟨hw.native, hw.waiting, hw.shown⟩

/-- While a run waits, a step is a signal or the release. -/
theorem waitsFor_step (hw : s.WaitsFor interrupt) (hs : Steps job s a s') :
    (s'.WaitsFor interrupt ∧ s'.session.sent = s.session.sent ∧ a ≠ .session .release) ∨
      ∃ decision, s'.session.sent = s.session.sent ++ [⟨interrupt.id, decision⟩] := by
  obtain ⟨package, setup, hn⟩ := hw.native
  cases hs with
  | signal interruptId decision => exact .inl ⟨hw.signal _ _, rfl, by simp⟩
  | @session a _ _ session hp hstep =>
    obtain ⟨iid, d, rfl, rfl⟩ | ⟨result, rfl, hi, rfl⟩ | ⟨rfl, hi, rfl⟩ | ⟨i, d, rfl, hi, hd, rfl⟩ := step_cases hstep
    · have hafter : s.afterSession job (s.session.submitApproval iid d) = s.signal iid d := by
        have hphase : (s.session.submitApproval iid d).phase = .waiting interrupt := hw.waiting
        simp only [afterSession, hphase]
        rfl
      rw [hafter]
      exact .inl ⟨hw.signal _ _, rfl, by simp⟩
    · cases hi.symm.trans hw.waiting
    · cases hi.symm.trans hw.waiting
    · cases hi.symm.trans hw.waiting
      exact .inr ⟨d, rfl⟩
  | marked result hp => cases hp.symm.trans hn
  | resolved package hp => cases hp.symm.trans hn
  | unresolved e hp => cases hp.symm.trans hn
  | recalled result hp => cases hp.symm.trans hn
  | invoked response hp ho => cases hp.symm.trans hn
  | rejected response hp he => cases hp.symm.trans hn
  | guardrail tool verdict hp hi => cases hi.symm.trans hw.waiting
  | recorded result hp => cases hp.symm.trans hn
  | slept hp => cases hp.symm.trans hn

/-- What a run waits for it shows, and nothing else. -/
structure Pauses (s : JobRun) : Prop where
  waits : ∀ interrupt, s.session.phase = .waiting interrupt → s.WaitsFor interrupt
  shows : ∀ pending, s.session.pending = some pending → ∃ interrupt, s.WaitsFor interrupt

/-- A run that neither waits nor shows anything. -/
theorem pauses_of_idle (hi : ∀ interrupt, s.session.phase ≠ .waiting interrupt) (hp : s.session.pending = none) :
    s.Pauses := by
  refine ⟨fun interrupt h => absurd h (hi interrupt), fun pending h => ?_⟩
  rw [hp] at h
  cases h

theorem Pauses.pending (h : s.Pauses) (hi : ∀ interrupt, s.session.phase ≠ .waiting interrupt) :
    s.session.pending = none := by
  cases hp : s.session.pending with
  | none => rfl
  | some pending =>
    obtain ⟨interrupt, hw⟩ := h.shows pending hp
    exact absurd hw.waiting (hi interrupt)

/-- Outside its lane a run is idle. -/
theorem Pauses.idle (h : s.Pauses) (hn : ∀ package setup, s.stage ≠ .native package setup) :
    (∀ interrupt, s.session.phase ≠ .waiting interrupt) ∧ s.session.pending = none := by
  have hi (interrupt : Interrupt) : s.session.phase ≠ .waiting interrupt := by
    intro hp
    obtain ⟨package, setup, hs⟩ := (h.waits interrupt hp).native
    exact hn package setup hs
  exact ⟨hi, h.pending hi⟩

theorem Pauses.signal (h : s.Pauses) (interruptId decision : String) : (s.signal interruptId decision).Pauses := by
  refine ⟨fun i hp => (h.waits i hp).signal interruptId decision, fun pending hp => ?_⟩
  obtain ⟨i, hw⟩ := h.shows pending hp
  exact ⟨i, hw.signal interruptId decision⟩

theorem pauses_step (h : s.Pauses) (hs : Steps job s a s') : s'.Pauses := by
  have hidle (hn : ∀ package setup, s.stage ≠ .native package setup)
      (hp : s'.session.phase = s.session.phase ∧ s'.session.pending = s.session.pending) : s'.Pauses := by
    obtain ⟨hi, hnone⟩ := h.idle hn
    exact pauses_of_idle (fun interrupt => hp.1 ▸ hi interrupt) (hp.2.trans hnone)
  cases hs with
  | signal interruptId decision => exact h.signal interruptId decision
  | @session a package setup session hp hstep =>
    have hafter : (s.afterSession job session).session.phase = session.phase ∧
        (s.afterSession job session).session.pending = session.pending := by
      unfold afterSession
      split
      · exact ⟨rfl, rfl⟩
      · exact ⟨rfl, rfl⟩
      · exact ⟨rfl, rfl⟩
    have hstays {i : Interrupt} (hw : session.phase = .waiting i) :
        (s.afterSession job session).stage = .native package setup := by
      simp only [afterSession, hw]
      exact hp
    have hresting (hn : ∀ i, session.phase ≠ .waiting i) (hnone : session.pending = none) :
        (s.afterSession job session).Pauses :=
      pauses_of_idle (fun i => hafter.1 ▸ hn i) (hafter.2.trans hnone)
    have hinvoking (hi : s.session.phase = .invoking) : s.session.pending = none :=
      h.pending fun i hw => by cases hi.symm.trans hw
    obtain ⟨iid, d, rfl, rfl⟩ | ⟨result, rfl, hi, rfl⟩ | ⟨rfl, hi, rfl⟩ | ⟨i, d, rfl, hi, hd, rfl⟩ := step_cases hstep
    · have hsame {i : Interrupt} (hw : s.WaitsFor i) :
          (s.afterSession job (s.session.submitApproval iid d)).WaitsFor i :=
        ⟨⟨package, setup, hstays hw.waiting⟩, hafter.1.trans hw.waiting, by rw [hafter.2]; exact hw.shown⟩
      refine ⟨fun i hw => hsame (h.waits i (hafter.1.symm.trans hw)), fun pending hs => ?_⟩
      obtain ⟨i, hw⟩ := h.shows pending (hafter.2.symm.trans hs)
      exact ⟨i, hsame hw⟩
    · obtain ⟨i, pending, -, -, hof, hw, hshown⟩ | ⟨hn, hsame⟩ := onResult_cases s.session result
      · have hwaits : (s.afterSession job (s.session.onResult result)).WaitsFor i := by
          refine ⟨⟨package, setup, hstays hw⟩, hafter.1.trans hw, pending, hafter.2.trans hshown, ?_⟩
          exact ofInterrupt_id hof
        refine ⟨fun j hj => ?_, fun _ _ => ⟨i, hwaits⟩⟩
        cases hj.symm.trans hwaits.waiting
        exact hwaits
      · exact hresting hn (hsame.trans (hinvoking hi))
    · exact hresting (fun _ hw => Phase.noConfusion hw) (hinvoking hi)
    · exact hresting (fun _ hw => Phase.noConfusion hw) rfl
  | marked result hp => exact hidle (fun _ _ h => by cases hp.symm.trans h) ⟨rfl, rfl⟩
  | resolved package hp => exact hidle (fun _ _ h => by cases hp.symm.trans h) ⟨rfl, rfl⟩
  | unresolved e hp => exact hidle (fun _ _ h => by cases hp.symm.trans h) ⟨rfl, rfl⟩
  | @recalled result package hp =>
    refine hidle (fun _ _ h => by cases hp.symm.trans h) ?_
    unfold enterLane
    generalize result.toOption.getD [] = notes
    by_cases hn : notes = []
    · simp only [hn, if_true]
      split
      · exact ⟨rfl, rfl⟩
      · split <;> exact ⟨rfl, rfl⟩
    · simp only [hn, if_false]
      split
      · exact ⟨rfl, rfl⟩
      · split <;> exact ⟨rfl, rfl⟩
  | invoked response hp ho => exact hidle (fun _ _ h => by cases hp.symm.trans h) ⟨rfl, rfl⟩
  | rejected response hp he => exact hidle (fun _ _ h => by cases hp.symm.trans h) ⟨rfl, rfl⟩
  | guardrail tool verdict hp hi =>
    have hframe : (s.onVerdict tool verdict).session.phase = s.session.phase ∧
        (s.onVerdict tool verdict).session.pending = s.session.pending := by
      unfold onVerdict
      split
      · split <;> exact ⟨rfl, rfl⟩
      · exact ⟨rfl, rfl⟩
    have hn (i : Interrupt) : s.session.phase ≠ .waiting i := fun hw => by cases hi.symm.trans hw
    exact pauses_of_idle (fun i => hframe.1 ▸ hn i) (hframe.2.trans (h.pending hn))
  | recorded result hp => exact hidle (fun _ _ h => by cases hp.symm.trans h) ⟨rfl, rfl⟩
  | slept hp => exact hidle (fun _ _ h => by cases hp.symm.trans h) ⟨rfl, rfl⟩

end JobRun

/-! ## What the client approves -/

namespace JobRun

variable {job : AgentJobInput} {s s' : JobRun} {a : JobAction}

theorem lookup_signal (s : JobRun) (interruptId decision iid : String) :
    (s.signal interruptId decision).session.decisions.lookup iid =
      if iid = interruptId then some decision else s.session.decisions.lookup iid := by
  have he : (s.signal interruptId decision).session.decisions = s.session.decisions.insert interruptId decision := rfl
  rw [he]
  split
  · rename_i h
    rw [h, AList.lookup_insert]
  · rename_i h
    exact AList.lookup_insert_ne h

/-- A decision there is after a step was there before, or is the signal's. -/
theorem lookup_step (hs : Steps job s a s') {iid d : String} (h : s'.session.decisions.lookup iid = some d) :
    s.session.decisions.lookup iid = some d ∨ a = .session (.signal iid d) := by
  rcases decisions_step hs with ⟨jid, e, rfl, hdec⟩ | hdec
  · rw [hdec] at h
    by_cases hj : iid = jid
    · subst hj
      rw [AList.lookup_insert] at h
      cases h
      exact .inr rfl
    · rw [AList.lookup_insert_ne hj] at h
      exact .inl h
  · rw [hdec] at h
    exact .inl h

/-- Decisions are never withdrawn. -/
theorem decided_step (hs : Steps job s a s') {iid : String} (h : (s.session.decisions.lookup iid).isSome) :
    (s'.session.decisions.lookup iid).isSome := by
  rcases decisions_step hs with ⟨jid, e, rfl, hdec⟩ | hdec
  · rw [hdec]
    by_cases hj : iid = jid
    · rw [hj, AList.lookup_insert]
      rfl
    · rw [AList.lookup_insert_ne hj]
      exact h
  · rw [hdec]
    exact h

/-- A run that is over stays so: it takes no step but signals. -/
theorem ending_step (hs : Steps job s a s') {ending : Except Failure JobOutcome} (h : s.ending = some ending) :
    s'.ending = some ending := by
  have hnot {stage : JobStage} (hp : s.stage = stage) (hstage : (JobRun.ending ⟨stage, {}⟩).isNone) : False := by
    have he : s.ending = JobRun.ending ⟨stage, {}⟩ := by
      unfold JobRun.ending
      rw [hp]
    rw [← he, h] at hstage
    cases hstage
  cases hs with
  | signal interruptId decision => exact h
  | session hp hs => exact (hnot hp rfl).elim
  | marked result hp => exact (hnot hp rfl).elim
  | resolved package hp => exact (hnot hp rfl).elim
  | unresolved e hp => exact (hnot hp rfl).elim
  | recalled result hp => exact (hnot hp rfl).elim
  | invoked response hp ho => exact (hnot hp rfl).elim
  | rejected response hp he => exact (hnot hp rfl).elim
  | guardrail tool verdict hp hi => exact (hnot hp rfl).elim
  | recorded result hp => exact (hnot hp rfl).elim
  | slept hp => exact (hnot hp rfl).elim

end JobRun

namespace ApprovedRun

variable {job : AgentJobInput} {s s' : ApprovedRun} {a : ApprovalAction} {history : List ApprovalAction}

/-- The client asked, and was shown that the run waits for the interrupt. -/
def Shown (job : AgentJobInput) (history : List ApprovalAction) (interruptId : String) : Prop :=
  ∃ earlier rest s interrupt, history = earlier ++ .answered :: rest ∧ Machine.run (step job) {} earlier = some s ∧
    s.run.WaitsFor interrupt ∧ interrupt.id = interruptId

/-- Someone else submitted the decision, or it is the client's. -/
def Submitted (job : AgentJobInput) (history : List ApprovalAction) (interruptId decision : String) : Prop :=
  .job (.session (.signal interruptId decision)) ∈ history ∨ decision = "approve" ∧ Shown job history interruptId

theorem Shown.snoc {interruptId : String} (h : Shown job history interruptId) (a : ApprovalAction) :
    Shown job (history ++ [a]) interruptId := by
  obtain ⟨earlier, rest, s, interrupt, rfl, h⟩ := h
  exact ⟨earlier, rest ++ [a], s, interrupt, by simp, h⟩

theorem Submitted.snoc {interruptId decision : String} (h : Submitted job history interruptId decision)
    (a : ApprovalAction) : Submitted job (history ++ [a]) interruptId decision := by
  rcases h with h | ⟨rfl, h⟩
  · exact .inl (List.mem_append_left _ h)
  · exact .inr ⟨rfl, h.snoc a⟩

structure Invariant (job : AgentJobInput) (history : List ApprovalAction) (s : ApprovedRun) : Prop where
  reached : Machine.run (step job) {} history = some s
  pauses : s.run.Pauses
  signalling : ∀ pending, s.approver = .signalling pending → Shown job history pending.interruptId
  decisions : ∀ iid d, s.run.session.decisions.lookup iid = some d → Submitted job history iid d
  sent : ∀ r ∈ s.run.session.sent, Submitted job history r.interruptId r.response
  ended : ∀ ending, s.approver = .ended ending → s.run.ending = some ending

/-- The client's approval is one more decision. -/
theorem Invariant.approve (h : Invariant job history s) {pending : PendingApproval}
    (ha : s.approver = .signalling pending) (iid d : String)
    (hl : (s.approve pending).session.decisions.lookup iid = some d) : Submitted job history iid d := by
  have hl := (JobRun.lookup_signal s.run pending.interruptId "approve" iid).symm.trans hl
  split at hl
  · rename_i hiid
    cases hl
    exact .inr ⟨rfl, hiid ▸ h.signalling pending ha⟩
  · exact h.decisions iid d hl

theorem invariant_step (h : Invariant job history s) (hs : s.step job a = some s') :
    Invariant job (history ++ [a]) s' := by
  have hreached : Machine.run (step job) {} (history ++ [a]) = some s' := run_snoc.mpr ⟨s, h.reached, hs⟩
  have hsent : ∀ r ∈ s.run.session.sent, Submitted job (history ++ [a]) r.interruptId r.response :=
    fun r hr => (h.sent r hr).snoc a
  have hdecisions : ∀ iid d, s.run.session.decisions.lookup iid = some d → Submitted job (history ++ [a]) iid d :=
    fun iid d hl => (h.decisions iid d hl).snoc a
  -- the client goes to where it neither signals nor is done, and leaves the run or approves
  have hleaves {approver : Approver} (hr : Machine.run (step job) {} (history ++ [a]) = some { s with approver })
      (hsig : ∀ pending, approver ≠ .signalling pending) (hend : ∀ ending, approver ≠ .ended ending) :
      Invariant job (history ++ [a]) { s with approver } :=
    ⟨hr, h.pauses, fun pending hp => absurd hp (hsig pending), hdecisions, hsent, fun ending he => absurd he (hend ending)⟩
  have happroves {approver : Approver} {pending : PendingApproval} (ha : s.approver = .signalling pending)
      (hr : Machine.run (step job) {} (history ++ [a]) = some { run := s.approve pending, approver })
      (hsig : ∀ pending, approver ≠ .signalling pending) (hend : ∀ ending, approver ≠ .ended ending) :
      Invariant job (history ++ [a]) { run := s.approve pending, approver } :=
    ⟨hr, h.pauses.signal _ _, fun p hp => absurd hp (hsig p),
      fun iid d hl => (h.approve ha iid d hl).snoc a, hsent, fun ending he => absurd he (hend ending)⟩
  cases steps_of_step hs with
  | @job a run hstep =>
    refine ⟨hreached, JobRun.pauses_step h.pauses hstep, fun pending ha => (h.signalling pending ha).snoc _,
      fun iid d hl => ?_, fun r hr => ?_, fun ending he => JobRun.ending_step hstep (h.ended ending he)⟩
    · rcases JobRun.lookup_step hstep hl with hl | rfl
      · exact hdecisions iid d hl
      · exact .inl (List.mem_append_right _ List.mem_cons_self)
    · rcases sent_of_step hstep hr with hr | hl
      · exact hsent r hr
      · exact hdecisions _ _ hl
  | resulted ha he =>
    refine ⟨hreached, h.pauses, fun _ hp => Approver.noConfusion hp, hdecisions, hsent, fun ending hend => ?_⟩
    cases hend
    exact he
  | disconnected ha => exact hleaves hreached (fun _ => Approver.noConfusion) fun _ => Approver.noConfusion
  | timedOut ha => exact hleaves hreached (fun _ => Approver.noConfusion) fun _ => Approver.noConfusion
  | answered ha =>
    cases hp : s.run.session.pending with
    | none =>
      rw [hp] at hreached
      exact hleaves hreached (fun _ => Approver.noConfusion) fun _ => Approver.noConfusion
    | some pending =>
      rw [hp] at hreached
      refine ⟨hreached, h.pauses, fun p hsig => ?_, hdecisions, hsent, fun _ he => Approver.noConfusion he⟩
      cases hsig
      obtain ⟨interrupt, hw⟩ := h.pauses.shows pending hp
      obtain ⟨shown, hshown, hid⟩ := hw.shown
      cases hp.symm.trans hshown
      exact ⟨history, [], s, interrupt, rfl, h.reached, hw, hid.symm⟩
  | unanswered ha => exact hleaves hreached (fun _ => Approver.noConfusion) fun _ => Approver.noConfusion
  | queryFailed ha => exact hleaves hreached (fun _ => Approver.noConfusion) fun _ => Approver.noConfusion
  | signalled ha he => exact happroves ha hreached (fun _ => Approver.noConfusion) fun _ => Approver.noConfusion
  | lost ha he => exact happroves ha hreached (fun _ => Approver.noConfusion) fun _ => Approver.noConfusion
  | unsent delivered ha => exact hleaves hreached (fun _ => Approver.noConfusion) fun _ => Approver.noConfusion

theorem invariant_start : Invariant job [] {} where
  reached := rfl
  pauses := JobRun.pauses_of_idle (fun _ h => Phase.noConfusion h) rfl
  signalling _ h := Approver.noConfusion h
  decisions _ _ h := Option.noConfusion rfl (heq_of_eq h)
  sent _ h := absurd h List.not_mem_nil
  ended _ h := Approver.noConfusion h

end ApprovedRun

/-- Whoever signals, and in whatever order: the agent is resumed only with what
someone else submitted, or with the client's approval of an interrupt that it
was shown while the run waited for it; and what the client returns or raises as
the run's outcome, is the run's. -/
theorem responses_sent (job : AgentJobInput) (history : List ApprovalAction) (s : ApprovedRun)
    (hr : run (ApprovedRun.step job) {} history = some s) :
    (∀ r ∈ s.run.session.sent, ApprovedRun.Submitted job history r.interruptId r.response) ∧
      ∀ ending, s.approver = .ended ending → s.run.ending = some ending := by
  have hI : ApprovedRun.Invariant job history s :=
    run_keeps (I := ApprovedRun.Invariant job) ApprovedRun.invariant_start
      (fun _ _ _ _ => ApprovedRun.invariant_step) hr
  exact ⟨hI.sent, hI.ended⟩

/-! ## Every pause ends -/

/-- A step of the client's loop. -/
def ApprovalAction.own : ApprovalAction → Prop
  | .job _ => False
  | _ => True

/-- A call fails, and the client with it. -/
def ApprovalAction.fails : ApprovalAction → Prop
  | .disconnected => True
  | .queryFailed => True
  | .unsent _ => True
  | _ => False

namespace ApprovedRun

variable {job : AgentJobInput}

/-- Each part is given its turn. -/
structure Fair (c : Course (step job) {}) : Prop where
  /-- A wait that can be released is. -/
  released : c.Weak (fun s => (s.step job (.job (.session .release))).isSome) (· = .job (.session .release))
  /-- The client's loop goes on. -/
  goesOn : c.Weak (fun s => s.approver.running) ApprovalAction.own
  /-- If the client asks again and again, it is answered. -/
  answered : c.Strong (fun s => s.approver = .querying) (· = .answered)
  /-- No call of the client fails, and the client with it, but where the run is over. -/
  reached : ∀ n a, c.action n = some a → a.fails → (c.state n).run.ending.isSome

/-- The run waits for the interrupt, with so many responses sent before. -/
structure Paused (interrupt : Interrupt) (before : ℕ) (s : ApprovedRun) : Prop where
  waits : s.run.WaitsFor interrupt
  sent : s.run.session.sent.length = before

/-- The agent was resumed for it. -/
def Resumed (interrupt : Interrupt) (before : ℕ) (s : ApprovedRun) : Prop :=
  ∃ decision, s.run.session.sent[before]? = some ⟨interrupt.id, decision⟩

def Decided (interrupt : Interrupt) (s : ApprovedRun) : Prop := (s.run.session.decisions.lookup interrupt.id).isSome

variable {s s' : ApprovedRun} {a : ApprovalAction} {interrupt : Interrupt} {before : ℕ} {c : Course (step job) {}}

/-- What the client does while the run waits for the interrupt, up to `s'`. -/
inductive Moves (interrupt : Interrupt) (s' : ApprovedRun) : ApprovalAction → Approver → Prop
  | job {a : JobAction} (hne : a ≠ .session .release) {approver : Approver} (ha : s'.approver = approver) :
    Moves interrupt s' (.job a) approver
  | timedOut (ha : s'.approver = .querying) : Moves interrupt s' .timedOut .polling
  | answered {pending : PendingApproval} (ha : s'.approver = .signalling pending)
    (hi : pending.interruptId = interrupt.id) : Moves interrupt s' .answered .querying
  | unanswered (ha : s'.approver = .polling) : Moves interrupt s' .unanswered .querying
  | signalled (pending : PendingApproval) (ha : s'.approver = .polling)
    (hd : pending.interruptId = interrupt.id → Decided interrupt s') : Moves interrupt s' .signalled (.signalling pending)

/-- While the run waits, a step resumes the agent, or leaves the pause and what is decided. -/
theorem paused_moment (hf : Fair c) {n : ℕ} (hp : Paused interrupt before (c.state n)) (ha : c.action n = some a) :
    Resumed interrupt before (c.state (n + 1)) ∨
      Paused interrupt before (c.state (n + 1)) ∧ (Decided interrupt (c.state n) → Decided interrupt (c.state (n + 1))) ∧
        Moves interrupt (c.state (n + 1)) a (c.state n).approver := by
  have hreached := hf.reached n a ha
  have hwaits := hp.waits.ending
  have hs := c.next_some ha
  generalize c.state n = s at hp hreached hwaits hs ⊢
  generalize c.state (n + 1) = s' at hs ⊢
  cases steps_of_step hs with
  | @job a run hstep =>
    rcases JobRun.waitsFor_step hp.waits hstep with ⟨hw, hsent, hne⟩ | ⟨decision, hsent⟩
    · exact .inr ⟨⟨hw, (congrArg List.length hsent).trans hp.sent⟩, JobRun.decided_step hstep, .job hne rfl⟩
    · refine .inl ⟨decision, ?_⟩
      show run.session.sent[before]? = _
      rw [hsent, ← hp.sent]
      exact List.getElem?_concat_length
  | resulted happ he => cases hwaits.symm.trans he
  | disconnected happ => cases hwaits ▸ hreached trivial
  | timedOut happ =>
    rw [happ]
    exact .inr ⟨⟨hp.waits, hp.sent⟩, id, .timedOut rfl⟩
  | answered happ =>
    obtain ⟨pending, hshown, hid⟩ := hp.waits.shown
    rw [happ, hshown]
    exact .inr ⟨⟨hp.waits, hp.sent⟩, id, .answered rfl hid⟩
  | unanswered happ =>
    rw [happ]
    exact .inr ⟨⟨hp.waits, hp.sent⟩, id, .unanswered rfl⟩
  | queryFailed happ => cases hwaits ▸ hreached trivial
  | @signalled pending happ he =>
    have hlookup := JobRun.lookup_signal s.run pending.interruptId "approve" interrupt.id
    have hd (h : Decided interrupt s ∨ pending.interruptId = interrupt.id) :
        Decided interrupt { run := s.approve pending, approver := .polling } := by
      show ((s.run.signal pending.interruptId "approve").session.decisions.lookup interrupt.id).isSome
      rw [hlookup]
      split
      · rfl
      · rename_i hne
        exact h.resolve_right fun h => hne h.symm
    rw [happ]
    have hmoves : Moves interrupt { run := s.approve pending, approver := .polling } .signalled (.signalling pending) :=
      .signalled pending rfl fun h => hd (.inr h)
    exact .inr ⟨⟨hp.waits.signal _ _, hp.sent⟩, fun h => hd (.inl h), hmoves⟩
  | lost happ he => cases hwaits ▸ hreached trivial
  | unsent delivered happ => cases hwaits ▸ hreached trivial

/-- What is decided is released. -/
theorem decided_leads (hf : Fair c) :
    c.Leads (fun s => Paused interrupt before s ∧ Decided interrupt s) (Resumed interrupt before) := by
  refine Course.leads_of_weak hf.released (Course.unless_of_steps fun n a hn ha => ?_) (fun s hs => ?_)
    fun n a hn ha hrel => ?_
  · rcases paused_moment hf hn.1 ha with hr | ⟨hp, hd, -⟩
    · exact .inr hr
    · exact .inl ⟨hp, hd hn.2⟩
  · obtain ⟨⟨hw, -⟩, hd⟩ := hs
    obtain ⟨package, setup, hnative⟩ := hw.native
    simp only [step, JobRun.step, Session.step, hnative, hw.waiting, Option.isSome_map]
    exact hd
  · rcases paused_moment hf hn.1 ha with hr | ⟨-, -, hm⟩
    · exact hr
    · subst hrel
      cases hm with
      | job hne happ => exact absurd rfl hne

/-- A client that signals does so. -/
theorem signalling_leads (hf : Fair c) (pending : PendingApproval) :
    c.Leads (fun s => Paused interrupt before s ∧ s.approver = .signalling pending) fun s =>
      (Paused interrupt before s ∧ s.approver = .polling ∧ (pending.interruptId = interrupt.id → Decided interrupt s)) ∨
        Resumed interrupt before s := by
  refine Course.leads_of_weak hf.goesOn (Course.unless_of_steps fun n a hn ha => ?_) (fun s hs => ?_)
    fun n a hn ha hown => ?_
  · rcases paused_moment hf hn.1 ha with hr | ⟨hp, -, hm⟩
    · exact .inr (.inr hr)
    · rw [hn.2] at hm
      cases hm with
      | job hne happ => exact .inl ⟨hp, happ⟩
      | signalled pending happ hd => exact .inr (.inl ⟨hp, happ, hd⟩)
  · rw [hs.2]
    trivial
  · rcases paused_moment hf hn.1 ha with hr | ⟨hp, -, hm⟩
    · exact .inr hr
    · rw [hn.2] at hm
      cases hm with
      | job hne happ => exact hown.elim
      | signalled pending happ hd => exact .inl ⟨hp, happ, hd⟩

/-- A client that polls comes to ask. -/
theorem polling_leads (hf : Fair c) :
    c.Leads (fun s => Paused interrupt before s ∧ s.approver = .polling) fun s =>
      (Paused interrupt before s ∧ s.approver = .querying) ∨ Resumed interrupt before s := by
  refine Course.leads_of_weak hf.goesOn (Course.unless_of_steps fun n a hn ha => ?_) (fun s hs => ?_)
    fun n a hn ha hown => ?_
  · rcases paused_moment hf hn.1 ha with hr | ⟨hp, -, hm⟩
    · exact .inr (.inr hr)
    · rw [hn.2] at hm
      cases hm with
      | job hne happ => exact .inl ⟨hp, happ⟩
      | timedOut happ => exact .inr (.inl ⟨hp, happ⟩)
  · rw [hs.2]
    trivial
  · rcases paused_moment hf hn.1 ha with hr | ⟨hp, -, hm⟩
    · exact .inr hr
    · rw [hn.2] at hm
      cases hm with
      | job hne happ => exact hown.elim
      | timedOut happ => exact .inl ⟨hp, happ⟩

/-- A client that polls or asks comes to be shown what the run waits for. -/
theorem asking_leads (hf : Fair c) :
    c.Leads (fun s => Paused interrupt before s ∧ (s.approver = .polling ∨ s.approver = .querying)) fun s =>
      (∃ pending, (Paused interrupt before s ∧ s.approver = .signalling pending) ∧ pending.interruptId = interrupt.id) ∨
        Resumed interrupt before s := by
  refine Course.leads_of_strong hf.answered (Course.unless_of_steps fun n a hn ha => ?_) (fun n hn => ?_)
    fun n a hn ha hans => ?_
  · rcases paused_moment hf hn.1 ha with hr | ⟨hp, -, hm⟩
    · exact .inr (.inr hr)
    · rcases hn.2 with happ | happ
      · rw [happ] at hm
        cases hm with
        | job hne happ => exact .inl ⟨hp, .inl happ⟩
        | timedOut happ => exact .inl ⟨hp, .inr happ⟩
      · rw [happ] at hm
        cases hm with
        | job hne happ => exact .inl ⟨hp, .inr happ⟩
        | answered happ hi => exact .inr (.inl ⟨_, ⟨hp, happ⟩, hi⟩)
        | unanswered happ => exact .inl ⟨hp, .inl happ⟩
  · rcases hn.2 with happ | happ
    · obtain ⟨m, hm, h⟩ := polling_leads hf n ⟨hn.1, happ⟩
      exact ⟨m, hm, h.imp And.right .inr⟩
    · exact ⟨n, le_rfl, .inl happ⟩
  · subst hans
    rcases paused_moment hf hn.1 ha with hr | ⟨hp, -, hm⟩
    · exact .inr hr
    · rcases hn.2 with happ | happ
      · rw [happ] at hm
        cases hm
      · rw [happ] at hm
        cases hm with
        | answered happ hi => exact .inl ⟨_, ⟨hp, happ⟩, hi⟩

/-- As long as the run goes on, the client does. -/
theorem client_goesOn (hf : Fair c) (n : ℕ) : (c.state n).approver.running ∨ (c.state n).run.ending.isSome := by
  refine c.always (P := fun s => s.approver.running ∨ s.run.ending.isSome) (.inl trivial) (fun n a h ha => ?_) n
  have hreached := hf.reached n a ha
  have hs := c.next_some ha
  generalize c.state n = s at h hreached hs
  generalize c.state (n + 1) = s' at hs ⊢
  cases steps_of_step hs with
  | job hstep =>
    refine h.imp_right fun h => ?_
    obtain ⟨ending, he⟩ := Option.isSome_iff_exists.mp h
    exact Option.isSome_iff_exists.mpr ⟨ending, JobRun.ending_step hstep he⟩
  | resulted happ he => exact .inr (Option.isSome_iff_exists.mpr ⟨_, he⟩)
  | disconnected happ => exact .inr (hreached trivial)
  | timedOut happ => exact .inl trivial
  | answered happ =>
    left
    cases s.run.session.pending <;> trivial
  | unanswered happ => exact .inl trivial
  | queryFailed happ => exact .inr (hreached trivial)
  | signalled happ he => exact .inl trivial
  | lost happ he => cases he ▸ hreached trivial
  | unsent delivered happ => exact .inr (hreached trivial)

/-- Every pause comes to an end. -/
theorem paused_leads (hf : Fair c) : c.Leads (Paused interrupt before) (Resumed interrupt before) := by
  have hpolls : c.Leads (fun s => Paused interrupt before s ∧ (s.approver = .polling ∨ s.approver = .querying))
      (Resumed interrupt before) := by
    refine (asking_leads hf).finish fun n hn => ?_
    obtain ⟨pending, hsig, hi⟩ := hn
    obtain ⟨m, hm, h⟩ := signalling_leads hf pending n hsig
    rcases h with ⟨hp, -, hd⟩ | hr
    · obtain ⟨k, hk, hr⟩ := decided_leads hf m ⟨hp, hd hi⟩
      exact ⟨k, hm.trans hk, hr⟩
    · exact ⟨m, hm, hr⟩
  intro n hn
  have hrunning : (c.state n).approver.running := by
    refine (client_goesOn hf n).resolve_right fun h => ?_
    rw [hn.waits.ending] at h
    cases h
  cases happ : (c.state n).approver with
  | polling => exact hpolls n ⟨hn, .inl happ⟩
  | querying => exact hpolls n ⟨hn, .inr happ⟩
  | signalling pending =>
    obtain ⟨m, hm, h⟩ := signalling_leads hf pending n ⟨hn, happ⟩
    rcases h with ⟨hp, happ, -⟩ | hr
    · obtain ⟨k, hk, hr⟩ := hpolls m ⟨hp, .inl happ⟩
      exact ⟨k, hm.trans hk, hr⟩
    · exact ⟨m, hm, hr⟩
  | ended ending => exact (happ ▸ hrunning).elim
  | failed => exact (happ ▸ hrunning).elim

end ApprovedRun

/-- In every run that goes on, of which the parts are each given their turn:
whatever the run waits for, and whatever the client is doing then, at some time
the agent is resumed for it. -/
theorem pauses_end (job : AgentJobInput) (c : Course (ApprovedRun.step job) {}) (hf : ApprovedRun.Fair c) (n : ℕ)
    (interrupt : Interrupt) (hp : (c.state n).run.session.phase = .waiting interrupt) :
    ∃ m decision, n ≤ m ∧
      (c.state m).run.session.sent[(c.state n).run.session.sent.length]? = some ⟨interrupt.id, decision⟩ := by
  have hI : ApprovedRun.Invariant job (c.history n) (c.state n) :=
    run_keeps (I := ApprovedRun.Invariant job) ApprovedRun.invariant_start
      (fun _ _ _ _ => ApprovedRun.invariant_step) (c.run_history n)
  obtain ⟨m, hm, decision, hr⟩ := ApprovedRun.paused_leads hf n ⟨hI.pauses.waits interrupt hp, rfl⟩
  exact ⟨m, decision, hm, hr⟩

/-- A refund that the client approves: it asks twice, once before there is
anything to approve. -/
def approvedRefund : List ApprovalAction :=
  [.job (.marked (.ok ())), .timedOut, .job (.resolved (.ok refundAgent)), .answered, .job (.recalled (.ok [])),
    .job (.session (.agentReturns ⟨"interrupt", [⟨"i-1", .dict []⟩], ""⟩)), .timedOut, .unanswered, .timedOut, .answered,
    .signalled, .timedOut, .job (.session .release), .answered,
    .job (.session (.agentReturns ⟨"end_turn", [], "Refunded."⟩)), .job (.recorded (.ok ())), .job .slept, .resulted]

theorem approvedRefund_fair {s : ApprovedRun} (hr : run (ApprovedRun.step refundJob) {} approvedRefund = some s)
    (hs : ¬ s.approver.running) (hover : s.run.ending.isSome) : ApprovedRun.Fair (Course.still approvedRefund hr) where
  released := by
    refine Course.weak_still hr fun h => ?_
    obtain ⟨s', hs'⟩ := Option.isSome_iff_exists.mp h
    obtain ⟨next, hnext, -⟩ := Option.map_eq_some_iff.mp hs'
    cases JobRun.steps_of_step hnext with
    | session hp hstep =>
      rw [JobRun.ending, hp] at hover
      cases hover
  goesOn := Course.weak_still hr hs
  answered := Course.strong_still hr fun h => hs (by rw [h]; trivial)
  reached n a ha hfails := by
    have hnone : ∀ a ∈ approvedRefund, ¬ a.fails := by simp [approvedRefund, ApprovalAction.fails]
    exact absurd hfails (hnone a (List.mem_of_getElem? ha))

theorem pauses_end_refund : ∃ s, ∃ hr : run (ApprovedRun.step refundJob) {} approvedRefund = some s, ∃ m decision,
    6 ≤ m ∧ ((Course.still approvedRefund hr).state m).run.session.sent[0]? = some ⟨"i-1", decision⟩ :=
  ⟨_, rfl, pauses_end refundJob _ (approvedRefund_fair rfl id rfl) 6 ⟨"i-1", .dict []⟩ rfl⟩

theorem responses_sent_refund : ∃ s, run (ApprovedRun.step refundJob) {} approvedRefund = some s ∧
    s.run.session.sent = [⟨"i-1", "approve"⟩] ∧ s.run.ending.isSome ∧
      (∀ r ∈ s.run.session.sent, ApprovedRun.Submitted refundJob approvedRefund r.interruptId r.response) :=
  ⟨_, rfl, rfl, rfl, (responses_sent refundJob approvedRefund _ rfl).1⟩

end ControlPlane
