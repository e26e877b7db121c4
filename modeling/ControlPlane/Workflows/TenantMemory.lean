import ControlPlane.Lib.Program
import ControlPlane.Workflows.JobRun

/-!
# Tenants' memories

The runs of any number of jobs, of any tenants, and the AgentCore Memory that
they all recall from and record in (`TenantMemory.step`). An attempt at
recording reaches the memory at any time after it was started, more than once
or never, also when the run has gone on without it. `list_events` shows some
events of the stream it is asked for: any of them may be hidden, by the limit,
a delay or a purge.

`recalled_own`: what a run recalls, and its agent's prompt shows, are summaries
of the outcomes of other jobs of its own tenant that are over.
-/

namespace ControlPlane

open Effect Effect.Prog

/-! ## The activities -/

structure MemoryEvent where
  memoryId : String
  actorId : String
  sessionId : String
  /-- The text of each item, if it has one. -/
  payload : List (Option String)

inductive MemoryOp
  | listEvents (memoryId actorId sessionId : String) (maxResults : ℕ)
  | createEvent (event : MemoryEvent)

def MemoryOp.Ans : MemoryOp → Type
  | listEvents _ _ _ _ => List MemoryEvent
  | createEvent _ => Unit

def Memory : Sig := ⟨MemoryOp, MemoryOp.Ans⟩

def recallLimit : ℕ := 5

/-- The event's texts, less the empty ones. -/
def MemoryEvent.texts (event : MemoryEvent) : List String :=
  event.payload.filterMap fun text => text.filter (· ≠ "")

def recallTenantMemory (memoryId : Option String) (tenantId : String) : Prog Memory Raised (List String) :=
  match memoryId.filter (· ≠ "") with
  | none => return []
  | some memoryId => do
    let events ← op (S := Memory) (.listEvents memoryId tenantId tenantId recallLimit)
    return events.flatMap MemoryEvent.texts

def recordTenantMemory (memoryId : Option String) (tenantId summary : String) : Prog Memory Raised Unit :=
  match memoryId.filter (· ≠ "") with
  | none => return ()
  | some memoryId => op (S := Memory) (.createEvent ⟨memoryId, tenantId, tenantId, [some summary]⟩)

/-- The service: `page` says which of the events it shows, by their places. -/
def memories : Handler Memory Raised (List ℕ) (List MemoryEvent)
  | .listEvents memoryId actorId sessionId maxResults, page, events =>
    .ok (((page.filterMap (events[·]?)).filter fun event =>
      event.memoryId = memoryId && event.actorId = actorId && event.sessionId = sessionId).take maxResults, events)
  | .createEvent event, _, events => .ok ((), events ++ [event])

/-- A recall takes its notes from events of its tenant's stream. -/
theorem recall_run {memoryId : Option String} {tenantId : String} {page : List ℕ} {events events' : List MemoryEvent}
    {notes : List String}
    (hr : run memories (recallTenantMemory memoryId tenantId) [page] events = (.returned notes, events')) :
    ∃ shown : List MemoryEvent, shown.length ≤ recallLimit ∧ (∀ e ∈ shown, e ∈ events ∧ e.actorId = tenantId) ∧
      notes = shown.flatMap MemoryEvent.texts := by
  unfold recallTenantMemory at hr
  split at hr
  · cases hr
    exact ⟨[], Nat.zero_le _, List.forall_mem_nil _, rfl⟩
  · cases hr
    refine ⟨_, List.length_take_le _ _, fun e he => ?_, rfl⟩
    obtain ⟨hp, hk⟩ := List.mem_filter.mp (List.mem_of_mem_take he)
    obtain ⟨k, -, hk'⟩ := List.mem_filterMap.mp hp
    simp only [Bool.and_eq_true, decide_eq_true_eq] at hk
    exact ⟨List.mem_of_getElem? hk', hk.1.2⟩

/-- A record that gets through adds its summary to its tenant's stream. -/
theorem record_run (memoryId : Option String) (tenantId summary : String) (page : List ℕ) (events : List MemoryEvent) :
    ∀ e ∈ (run memories (recordTenantMemory memoryId tenantId summary) [page] events).2,
      e ∈ events ∨ e.actorId = tenantId ∧ e.payload = [some summary] := by
  unfold recordTenantMemory
  split
  · exact fun e he => .inl he
  · intro e he
    rcases List.mem_append.mp he with he | he
    · exact .inl he
    · cases List.mem_singleton.mp he
      exact .inr ⟨rfl, rfl⟩

/-! ## The system -/

structure TenantMemory (ι : Type) where
  runs : ι → JobRun := fun _ => {}
  /-- All that were ever created. -/
  events : List MemoryEvent := []
  /-- The attempts at recording that were started. -/
  attempts : List (Prog Memory Raised Unit) := []

inductive MemoryAction (ι : Type)
  /-- Anything but notes that come back. -/
  | job (i : ι) (a : JobAction)
  /-- The attempt at recalling that answers. -/
  | recalled (i : ι) (page : List ℕ)
  /-- An attempt at recording starts. -/
  | record (i : ι)
  /-- An attempt reaches the memory. -/
  | land (k : ℕ)

variable {ι : Type} [DecidableEq ι]

namespace TenantMemory

def advance (jobs : ι → AgentJobInput) (w : TenantMemory ι) (i : ι) (a : JobAction) : Option (TenantMemory ι) :=
  ((w.runs i).step (jobs i) a).map fun s => { w with runs := Function.update w.runs i s }

def step (memoryId : Option String) (jobs : ι → AgentJobInput) (w : TenantMemory ι) :
    MemoryAction ι → Option (TenantMemory ι)
  | .job _ (.recalled (.ok _)) => none
  | .job i a => w.advance jobs i a
  | .recalled i page =>
    match run memories (recallTenantMemory memoryId (jobs i).tenantId) [page] w.events with
    | (.returned notes, _) => w.advance jobs i (.recalled (.ok notes))
    | _ => none
  | .record i =>
    match (w.runs i).stage with
    | .recording _ _ summary =>
      some { w with attempts := w.attempts ++ [recordTenantMemory memoryId (jobs i).tenantId summary] }
    | _ => none
  | .land k => w.attempts[k]?.map fun attempt => { w with events := (run memories attempt [[]] w.events).2 }

end TenantMemory

/-! ## What a run recalls -/

/-- How a run that is over ended: its stop reason and its output. -/
def JobStage.outcome : JobStage → Option (String × String)
  | recording stopReason output _ => some (stopReason, output)
  | sleeping stopReason output => some (stopReason, output)
  | returned outcome => some (outcome.stopReason, outcome.output)
  | _ => none

/-- What a job records of its outcome. -/
def jobSummary (job : AgentJobInput) (stopReason output : String) : String :=
  job.agentId ++ " v" ++ toString job.agentVersion ++ ": " ++ stopReason ++ " — " ++ String.ofList (output.toList.take 200)

section

variable {job : AgentJobInput} {s s' : JobRun} {a : JobAction} {notes : List String}

theorem mem_publish {event : UIEvent} (hk : event.kind ≠ "memory_recall") :
    .memoryRecall notes ∈ (s.publish event).session.events ↔ .memoryRecall notes ∈ s.session.events := by
  refine List.mem_append.trans (or_iff_left fun he => ?_)
  exact hk (congrArg UIEvent.kind (List.mem_singleton.mp he)).symm

theorem memoryRecall_injective : Function.Injective UIEvent.memoryRecall := by
  intro notes notes' h
  simp only [UIEvent.memoryRecall, UIEvent.mk.injEq, List.cons.injEq, Prod.mk.injEq, Value.list.injEq, true_and,
    and_true] at h
  exact List.map_injective_iff.mpr (fun _ _ he => Value.str.inj he) h

/-- The approval loop recalls nothing. -/
theorem recall_session {session session' : Session} {a : Action} (hs : session.step a = some session') :
    .memoryRecall notes ∈ session'.events ↔ .memoryRecall notes ∈ session.events := by
  obtain ⟨iid, d, rfl, rfl⟩ | ⟨result, rfl, -, rfl⟩ | ⟨rfl, -, rfl⟩ | ⟨interrupt, d, rfl, -, -, rfl⟩ := step_cases hs
  · exact Iff.rfl
  · obtain h | ⟨pending, h⟩ : (session.onResult result).events = session.events ∨
        ∃ pending, (session.onResult result).events = session.events ++ [.approvalPending pending] := by
      unfold Session.onResult
      split
      · split
        · split
          · exact .inl rfl
          · exact .inr ⟨_, rfl⟩
        · exact .inl rfl
      · exact .inl rfl
    · rw [h]
    · rw [h, List.mem_append]
      exact or_iff_left fun he => by simp [UIEvent.memoryRecall, UIEvent.approvalPending] at he
  · exact Iff.rfl
  · refine List.mem_append.trans (or_iff_left fun he => ?_)
    simp [UIEvent.memoryRecall] at he

/-- What is published of the notes, if there are any. -/
theorem mem_recalled {recalled : List String} :
    .memoryRecall notes ∈ (if recalled = [] then s else s.publish (.memoryRecall recalled)).session.events ↔
      .memoryRecall notes ∈ s.session.events ∨ notes = recalled ∧ recalled ≠ [] := by
  by_cases hr : recalled = []
  · simp only [hr, if_true, ne_eq, not_true_eq_false, and_false, or_false]
  · rw [if_neg hr, and_iff_left hr]
    refine List.mem_append.trans (or_congr_right (List.mem_singleton.trans ?_))
    exact memoryRecall_injective.eq_iff

/-- The lanes start with the same events, but for the call of the hosted agent. -/
theorem enterLane_cases (job : AgentJobInput) (s : JobRun) (package : AgentPackage) (recalled : List String) :
    ∃ s₁, s₁ = (if recalled = [] then s else s.publish (.memoryRecall recalled)) ∧
      (s.enterLane job package recalled = (s₁.publish (.toolCall package.agentId)).goto (.hosting package) ∨
        (∃ setup, agentSetup job package recalled = .ok setup ∧
          s.enterLane job package recalled = s₁.goto (.native package setup)) ∨
        ∃ e, s.enterLane job package recalled = s₁.goto (.raised e)) := by
  refine ⟨_, rfl, ?_⟩
  unfold JobRun.enterLane
  simp only
  split
  · exact .inl rfl
  · split
    · rename_i hok
      exact .inr (.inl ⟨_, hok, rfl⟩)
    · exact .inr (.inr ⟨_, rfl⟩)

/-- What is published on entering a lane recalls the notes and nothing else. -/
theorem recall_enterLane {package : AgentPackage} {recalled : List String} :
    .memoryRecall notes ∈ (s.enterLane job package recalled).session.events ↔
      .memoryRecall notes ∈ s.session.events ∨ notes = recalled ∧ recalled ≠ [] := by
  obtain ⟨s₁, rfl, h | ⟨setup, -, h⟩ | ⟨e, h⟩⟩ := enterLane_cases job s package recalled
  · rw [h]
    exact (mem_publish (by simp [UIEvent.toolCall])).trans mem_recalled
  · rw [h]
    exact mem_recalled
  · rw [h]
    exact mem_recalled

/-- A verdict changes no stage and recalls nothing. -/
theorem onVerdict_frame (s : JobRun) (tool : String) (verdict : Except Raised GuardrailVerdict) :
    (s.onVerdict tool verdict).stage = s.stage ∧ ∀ notes,
      .memoryRecall notes ∈ (s.onVerdict tool verdict).session.events ↔ .memoryRecall notes ∈ s.session.events := by
  unfold JobRun.onVerdict
  split
  · split
    · exact ⟨rfl, fun _ => mem_publish (by simp [UIEvent.guardrail])⟩
    · exact ⟨rfl, fun _ => Iff.rfl⟩
  · exact ⟨rfl, fun _ => Iff.rfl⟩

/-- What a run says it has recalled is what came back. -/
theorem recall_of_step (hs : JobRun.Steps job s a s') (hn : .memoryRecall notes ∈ s'.session.events) :
    .memoryRecall notes ∈ s.session.events ∨ a = .recalled (.ok notes) := by
  cases hs with
  | signal interruptId decision => exact .inl hn
  | @session a package setup session hp hstep =>
    left
    unfold JobRun.afterSession at hn
    split at hn
    · exact (recall_session hstep).mp ((mem_publish (by simp [UIEvent.jobFinished])).mp hn)
    · exact (recall_session hstep).mp hn
    · exact (recall_session hstep).mp hn
  | marked result hp => exact .inl ((mem_publish (by simp [UIEvent.jobStarted])).mp hn)
  | @recalled result package hp =>
    rcases recall_enterLane.mp hn with h | h
    · exact .inl h
    · right
      cases result with
      | error e => exact absurd rfl h.2
      | ok recalled => exact congrArg (fun notes => JobAction.recalled (.ok notes)) h.1.symm
  | invoked response hp ho => exact .inl ((mem_publish (by simp [UIEvent.jobFinished])).mp hn)
  | guardrail tool verdict hp hi => exact .inl (((onVerdict_frame s tool verdict).2 notes).mp hn)
  | _ => exact .inl hn

/-! ## What it is prompted with -/

theorem agentSetup_prompt {package : AgentPackage} {setup : AgentSetup} (h : agentSetup job package notes = .ok setup) :
    setup.systemPrompt = systemPrompt job package notes := by
  simp only [agentSetup, bind, Except.bind] at h
  split at h
  · cases h
  split at h
  · cases h
  -- the output model, if the package names one
  split at h
  · cases h
    rfl
  · split at h
    · cases h
    · cases h
      rfl

/-- The prompt of the agent shows what the run says it has recalled. -/
def Prompted (job : AgentJobInput) (s : JobRun) : Prop :=
  match s.stage with
  | .marking => ∀ notes, .memoryRecall notes ∉ s.session.events
  | .resolving => ∀ notes, .memoryRecall notes ∉ s.session.events
  | .recalling _ => ∀ notes, .memoryRecall notes ∉ s.session.events
  | .native package setup => ∃ recalled, setup.systemPrompt = systemPrompt job package recalled ∧
    ∀ notes, .memoryRecall notes ∈ s.session.events ↔ notes = recalled ∧ recalled ≠ []
  | _ => True

theorem prompted_step (hs : JobRun.Steps job s a s') (hI : Prompted job s) : Prompted job s' := by
  cases hs with
  | signal interruptId decision => exact hI
  | @session a _ _ session hp hstep =>
    rw [Prompted, hp] at hI
    obtain ⟨recalled, hprompt, he⟩ := hI
    unfold JobRun.afterSession
    split
    · trivial
    · trivial
    · rw [Prompted, hp]
      exact ⟨recalled, hprompt, fun notes => (recall_session hstep).trans (he notes)⟩
  | marked result hp =>
    rw [Prompted, hp] at hI
    exact fun notes hn => hI notes ((mem_publish (by simp [UIEvent.jobStarted])).mp hn)
  | resolved package hp =>
    rw [Prompted, hp] at hI
    exact hI
  | @recalled result package hp =>
    rw [Prompted, hp] at hI
    generalize result.toOption.getD [] = recalled
    have hevents (notes : List String) : .memoryRecall notes ∈ (s.enterLane job package recalled).session.events ↔
        notes = recalled ∧ recalled ≠ [] := recall_enterLane.trans (or_iff_right (hI notes))
    obtain ⟨s₁, -, h | ⟨setup, hok, h⟩ | ⟨e, h⟩⟩ := enterLane_cases job s package recalled
    · rw [h]
      trivial
    · rw [h] at hevents ⊢
      exact ⟨_, agentSetup_prompt hok, hevents⟩
    · rw [h]
      trivial
  | guardrail tool verdict hp hi =>
    obtain ⟨hstage, hrecall⟩ := onVerdict_frame s tool verdict
    rw [Prompted, hp] at hI
    rw [Prompted, hstage, hp]
    obtain ⟨recalled, hprompt, he⟩ := hI
    exact ⟨recalled, hprompt, fun notes => (hrecall notes).trans (he notes)⟩
  | _ => trivial

/-! ## What it records -/

/-- What a run records is the summary of its outcome. -/
def Summed (job : AgentJobInput) (s : JobRun) : Prop :=
  ∀ stopReason output summary, s.stage = .recording stopReason output summary → summary = jobSummary job stopReason output

theorem summed_step (hs : JobRun.Steps job s a s') (hI : Summed job s) : Summed job s' := by
  intro stopReason output summary hp
  cases hs with
  | signal interruptId decision => exact hI _ _ _ hp
  | @session a _ _ session hn hstep =>
    unfold JobRun.afterSession at hp
    split at hp
    · cases hp
      rfl
    · cases hp
    · exact hI _ _ _ hp
  | @recalled result package hn =>
    obtain ⟨s₁, -, h | ⟨setup, -, h⟩ | ⟨e, h⟩⟩ := enterLane_cases job s package (result.toOption.getD [])
    · rw [h] at hp
      cases hp
    · rw [h] at hp
      cases hp
    · rw [h] at hp
      cases hp
  | invoked response hn ho =>
    cases hp
    rfl
  | guardrail tool verdict hn hi => exact hI _ _ _ ((onVerdict_frame s tool verdict).1 ▸ hp)
  | _ => cases hp

/-- A run that is over stays so, with the outcome it has. -/
theorem outcome_of_step (hs : JobRun.Steps job s a s') {o : String × String} (ho : s.stage.outcome = some o) :
    s'.stage.outcome = some o := by
  have hover {stage : JobStage} (hp : s.stage = stage) : stage.outcome = some o := by
    rw [← hp]
    exact ho
  cases hs with
  | signal interruptId decision => exact ho
  | recorded result hp =>
    have ho := hover hp
    exact ho
  | slept hp =>
    have ho := hover hp
    exact ho
  | session hp hstep => cases hover hp
  | marked result hp => cases hover hp
  | resolved package hp => cases hover hp
  | unresolved e hp => cases hover hp
  | recalled result hp => cases hover hp
  | invoked response hp _ => cases hover hp
  | rejected response hp _ => cases hover hp
  | guardrail tool verdict hp hi => cases hover hp

end

/-! ## Whose notes -/

namespace TenantMemory

variable {memoryId : Option String} {jobs : ι → AgentJobInput} {w w' : TenantMemory ι}

/-- Job `k` is over, and this is the summary of its outcome. -/
def Sums (jobs : ι → AgentJobInput) (w : TenantMemory ι) (k : ι) (note : String) : Prop :=
  ∃ stopReason output, (w.runs k).stage.outcome = some (stopReason, output) ∧ note = jobSummary (jobs k) stopReason output

/-- A few notes of other jobs of the same tenant that are over. -/
def Own (jobs : ι → AgentJobInput) (w : TenantMemory ι) (i : ι) (notes : List String) : Prop :=
  notes.length ≤ recallLimit ∧ ∀ note ∈ notes, ∃ k, k ≠ i ∧ (jobs k).tenantId = (jobs i).tenantId ∧ w.Sums jobs k note

structure Invariant (memoryId : Option String) (jobs : ι → AgentJobInput) (w : TenantMemory ι) : Prop where
  summed : ∀ i, Summed (jobs i) (w.runs i)
  prompted : ∀ i, Prompted (jobs i) (w.runs i)
  attempts : ∀ attempt ∈ w.attempts, ∃ k note, w.Sums jobs k note ∧
    attempt = recordTenantMemory memoryId (jobs k).tenantId note
  events : ∀ e ∈ w.events, ∃ k note, w.Sums jobs k note ∧ e.actorId = (jobs k).tenantId ∧ e.payload = [some note]
  recalled : ∀ i notes, .memoryRecall notes ∈ (w.runs i).session.events → w.Own jobs i notes

/-- What is over stays over. -/
def Grows (w w' : TenantMemory ι) : Prop :=
  ∀ k o, (w.runs k).stage.outcome = some o → (w'.runs k).stage.outcome = some o

omit [DecidableEq ι] in
theorem Sums.mono {k : ι} {note : String} (h : w.Sums jobs k note) (hg : w.Grows w') : w'.Sums jobs k note := by
  obtain ⟨stopReason, output, ho, rfl⟩ := h
  exact ⟨stopReason, output, hg k _ ho, rfl⟩

omit [DecidableEq ι] in
theorem Own.mono {i : ι} {notes : List String} (h : w.Own jobs i notes) (hg : w.Grows w') : w'.Own jobs i notes := by
  refine ⟨h.1, fun note hn => ?_⟩
  obtain ⟨k, hk, ht, hsum⟩ := h.2 note hn
  exact ⟨k, hk, ht, hsum.mono hg⟩

/-- A step of one run, with notes that are its own where it recalls. -/
theorem invariant_advance {i : ι} {a : JobAction} (hI : Invariant memoryId jobs w)
    (hown : ∀ notes, a = .recalled (.ok notes) → w.Own jobs i notes) (hs : w.advance jobs i a = some w') :
    Invariant memoryId jobs w' := by
  obtain ⟨s, hstep, rfl⟩ := Option.map_eq_some_iff.mp hs
  have hstep := JobRun.steps_of_step hstep
  have hg : w.Grows { w with runs := Function.update w.runs i s } := by
    intro k o ho
    by_cases hk : k = i
    · subst hk
      simp only [Function.update_self]
      exact outcome_of_step hstep ho
    · simp only [Function.update_of_ne hk]
      exact ho
  have hrun {P : ι → JobRun → Prop} (hi : P i s) (hP : ∀ k, P k (w.runs k)) (k : ι) : P k (Function.update w.runs i s k) := by
    by_cases hk : k = i
    · subst hk
      rw [Function.update_self]
      exact hi
    · rw [Function.update_of_ne hk]
      exact hP k
  refine ⟨?_, ?_, fun attempt ha => ?_, fun e he => ?_, ?_⟩
  · exact hrun (P := fun k => Summed (jobs k)) (summed_step hstep (hI.summed i)) hI.summed
  · exact hrun (P := fun k => Prompted (jobs k)) (prompted_step hstep (hI.prompted i)) hI.prompted
  · obtain ⟨k, note, hsum, he⟩ := hI.attempts attempt ha
    exact ⟨k, note, hsum.mono hg, he⟩
  · obtain ⟨k, note, hsum, he⟩ := hI.events e he
    exact ⟨k, note, hsum.mono hg, he⟩
  · refine hrun (P := fun k s => ∀ notes, .memoryRecall notes ∈ s.session.events → Own jobs _ k notes) ?_ ?_
    · intro notes hn
      rcases recall_of_step hstep hn with h | h
      · exact (hI.recalled i notes h).mono hg
      · exact (hown notes h).mono hg
    · exact fun k notes hn => (hI.recalled k notes hn).mono hg

omit [DecidableEq ι] in
/-- What a run that goes on to recall is given is its own. -/
theorem recalled_notes {i : ι} {page : List ℕ} {notes : List String} {events : List MemoryEvent}
    (hI : Invariant memoryId jobs w) (hi : (w.runs i).stage.outcome = none)
    (hr : run memories (recallTenantMemory memoryId (jobs i).tenantId) [page] w.events = (.returned notes, events)) :
    w.Own jobs i notes := by
  obtain ⟨shown, hlen, hshown, rfl⟩ := recall_run hr
  have htexts : ∀ e ∈ shown, e.texts.length ≤ 1 := by
    intro e he
    obtain ⟨k, note, -, -, hp⟩ := hI.events e (hshown e he).1
    rw [MemoryEvent.texts, hp]
    exact List.length_filterMap_le _ _
  refine ⟨?_, fun note hn => ?_⟩
  · calc (shown.flatMap MemoryEvent.texts).length
        = (shown.map fun e => e.texts.length).sum := List.length_flatMap
      _ ≤ (shown.map fun e => e.texts.length).length • 1 := List.sum_le_card_nsmul _ 1 (List.forall_mem_map.mpr htexts)
      _ = shown.length := (Nat.mul_one _).trans (List.length_map _)
      _ ≤ recallLimit := hlen
  · obtain ⟨e, he, hne⟩ := List.mem_flatMap.mp hn
    obtain ⟨k, note', hsum, hk, hp⟩ := hI.events e (hshown e he).1
    have hnote : note = note' := by
      rw [MemoryEvent.texts, hp] at hne
      obtain ⟨text, ht, hf⟩ := List.mem_filterMap.mp hne
      cases List.mem_singleton.mp ht
      exact (Option.some.inj (Option.filter_eq_some_iff.mp hf).1).symm
    subst hnote
    refine ⟨k, fun hki => ?_, hk.symm.trans (hshown e he).2, hsum⟩
    obtain ⟨_, _, ho, -⟩ := hsum
    rw [hki, hi] at ho
    cases ho

theorem invariant_step {a : MemoryAction ι} (hI : Invariant memoryId jobs w) (hs : w.step memoryId jobs a = some w') :
    Invariant memoryId jobs w' := by
  cases a with
  | job i a =>
    unfold step at hs
    split at hs
    · cases hs
    · rename_i hne he
      cases he
      exact invariant_advance hI (fun notes h => absurd h (hne notes)) hs
    · rename_i he
      cases he
    · rename_i he
      cases he
    · rename_i he
      cases he
  | recalled i page =>
    simp only [step] at hs
    split at hs
    · rename_i notes events hr
      refine invariant_advance hI (fun notes' h => ?_) hs
      cases h
      have hi : (w.runs i).stage.outcome = none := by
        obtain ⟨s, hstep, -⟩ := Option.map_eq_some_iff.mp hs
        cases JobRun.steps_of_step hstep with
        | recalled result hp => rw [hp]; rfl
      exact recalled_notes hI hi hr
    · cases hs
  | record i =>
    simp only [step] at hs
    split at hs
    · rename_i stopReason output summary hp
      cases hs
      refine { hI with attempts := fun attempt ha => ?_ }
      rcases List.mem_append.mp ha with ha | ha
      · exact hI.attempts attempt ha
      · refine ⟨i, summary, ⟨stopReason, output, ?_, hI.summed i _ _ _ hp⟩, List.mem_singleton.mp ha⟩
        rw [hp]
        rfl
    · cases hs
  | land k =>
    obtain ⟨attempt, hk, rfl⟩ := Option.map_eq_some_iff.mp hs
    refine { hI with events := fun e he => ?_ }
    obtain ⟨i, note, hsum, rfl⟩ := hI.attempts attempt (List.mem_of_getElem? hk)
    rcases record_run memoryId (jobs i).tenantId note [] w.events e he with he | he
    · exact hI.events e he
    · exact ⟨i, note, hsum, he⟩

end TenantMemory

/-- Whichever jobs run side by side, and whenever their records land: the notes
a run says it has recalled are its own, and they are those its agent's prompt
shows. -/
theorem recalled_own (memoryId : Option String) (jobs : ι → AgentJobInput) (history : List (MemoryAction ι))
    (w : TenantMemory ι) (hr : Machine.run (TenantMemory.step memoryId jobs) {} history = some w) (i : ι) :
    (∀ notes, .memoryRecall notes ∈ (w.runs i).session.events → w.Own jobs i notes) ∧
      ∀ package setup, (w.runs i).stage = .native package setup → ∃ recalled,
        setup.systemPrompt = systemPrompt (jobs i) package recalled ∧
          ∀ notes, .memoryRecall notes ∈ (w.runs i).session.events ↔ notes = recalled ∧ recalled ≠ [] := by
  have hI : TenantMemory.Invariant memoryId jobs w := by
    refine Machine.run_keeps (I := fun _ => TenantMemory.Invariant memoryId jobs) ?_
      (fun _ _ _ _ => TenantMemory.invariant_step) hr
    exact ⟨fun _ _ _ _ h => JobStage.noConfusion h, fun _ _ => List.not_mem_nil, List.forall_mem_nil _,
      List.forall_mem_nil _, fun _ _ h => absurd h List.not_mem_nil⟩
  refine ⟨hI.recalled i, fun package setup hp => ?_⟩
  have hprompted := hI.prompted i
  rwa [Prompted, hp] at hprompted

def triagePackage : AgentPackage where
  agentId := "triage"
  version := 1
  name := "Triage"
  tier := .noCode
  model := "bedrock-nova"
  systemPrompt := "Triage the dispute."

/-- Two jobs of one tenant and one of another. -/
def twoTenants : Fin 3 → AgentJobInput := fun i =>
  ⟨"session-" ++ (if i = 0 then "a" else if i = 1 then "b" else "c"), if i = 1 then "globex" else "acme", "triage", 1, "Go."⟩

def started (i : Fin 3) : List (MemoryAction (Fin 3)) :=
  [.job i (.marked (.ok ())), .job i (.resolved (.ok triagePackage))]

/-- The first job is over and recorded it twice when the others recall. -/
def recallAfter : List (MemoryAction (Fin 3)) :=
  started 0 ++ [.recalled 0 [0], .job 0 (.session (.agentReturns ⟨"end_turn", [], "Done."⟩)), .record 0, .land 0,
    .job 0 (.recorded (.error .requestError)), .land 0] ++ started 1 ++ started 2 ++ [.recalled 1 [0, 1], .recalled 2 [1, 0]]

theorem recalled_own_three : ∃ w notes, Machine.run (TenantMemory.step (some "memory-1") twoTenants) {} recallAfter = some w ∧
    notes.length = 2 ∧ .memoryRecall notes ∈ (w.runs 2).session.events ∧ w.Own twoTenants 2 notes := by
  have hin {w : TenantMemory (Fin 3)} {notes : List String}
      (hr : Machine.run (TenantMemory.step (some "memory-1") twoTenants) {} recallAfter = some w)
      (hn : .memoryRecall notes ∈ (w.runs 2).session.events) : w.Own twoTenants 2 notes :=
    (recalled_own _ twoTenants recallAfter w hr 2).1 notes hn
  exact ⟨_, [jobSummary (twoTenants 0) "end_turn" "Done.", jobSummary (twoTenants 0) "end_turn" "Done."], rfl, rfl,
    .tail _ (.head _), hin rfl (.tail _ (.head _))⟩

end ControlPlane
