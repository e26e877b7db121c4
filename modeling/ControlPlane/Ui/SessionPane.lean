import ControlPlane.Lib.Effect
import ControlPlane.Api.Jobs
import ControlPlane.Ui.Reconnect

/-!
# The session pane

The effect of `SessionTerminal.tsx`: it opens a stream for the job that is
displayed, and asks for the job's state at the start, where an approval is
pending, where the connection fails, and again and again once the session has
finished. Answers may arrive late, after another job is displayed. As in
`App`, what is written is queued until the next render, and the effect runs
some time after the render that displays another job. As in the terminal,
`SHOW_TOKEN_STREAM` and `onLiveChange` are taken as given.

`pane_own`: with nothing queued, the pane shows what the displayed job's own
stream delivered, a state that was answered for that job, and no approval but
that job's.
-/

namespace ControlPlane

open Component Machine

/-! ## State -/

structure PaneShown where
  /-- `job?.job_id` -/
  jobId : Option String := none
  entries : List Entry := []
  state : Option SessionState := none
  live : Bool := false

/-- A call of a setter. -/
inductive PaneUpdate
  /-- The three that the effect begins with. -/
  | clear
  | append (entry : Entry)
  | setState (state : SessionState)
  /-- `setState((prev) => (prev ? { ...prev, pending_approval: null } : prev))` -/
  | clearPending
  | setLive (live : Bool)

def PaneUpdate.apply (s : PaneShown) : PaneUpdate → PaneShown
  | clear => { s with entries := [], state := none, live := false }
  | append entry => { s with entries := ControlPlane.append s.entries entry }
  | setState state => { s with state := some state }
  | clearPending => { s with state := s.state.map fun prev => { prev with pendingApproval := none } }
  | setLive live => { s with live := live }

/-- Where the loop that `job_finished` starts is. -/
inductive Settling
  | no
  | asking (attempt : ℕ)
  /-- For the timer. -/
  | waiting (attempt : ℕ)
  | done

/-- A run of the effect: its source, and its requests under way. -/
structure JobStream where
  jobId : String
  /-- What the source has delivered. -/
  events : List Sse := []
  /-- What the requests for the job's state were answered with. -/
  states : List SessionState := []
  closed : Bool := false
  /-- The requests whose answer is only shown. -/
  requests : ℕ := 1
  /-- The requests of `onerror`. -/
  checks : ℕ := 0
  settling : Settling := .no

/-- `if (!job) return;` -/
def startStream (jobId : Option String) : Option JobStream := jobId.map fun jobId => { jobId := jobId }

structure Pane where
  shown : PaneShown := {}
  queue : List PaneUpdate := []
  stream : Effect (Option String) JobStream := {}

/-! ## Steps -/

namespace JobStream

section

variable (showTokenStream : Bool)

/-- An event of the source, after its listener. -/
def deliver (sse : Sse) (r : JobStream) : JobStream :=
  let r := { r with events := r.events ++ [sse] }
  match received showTokenStream sse with
  | none => r
  | some _ =>
    if sse.event = "approval_pending" then { r with requests := r.requests + 1 }
    else if sse.event = "job_finished" then { r with closed := true, settling := .asking 0 }
    else r

/-- What its listener writes. -/
def updates (sse : Sse) : List PaneUpdate :=
  match received showTokenStream sse with
  | none => []
  | some entry => .append entry ::
    if sse.event = "approval_resumed" then [.clearPending]
    else if sse.event = "job_finished" then [.setLive false]
    else []

end

def ask (r : JobStream) : JobStream := { r with checks := r.checks + 1 }

def answered (answer : Option SessionState) (r : JobStream) : JobStream :=
  { r with requests := r.requests - 1, states := r.states ++ answer.toList }

/-- A session that does not run any more has no stream to wait for. -/
def checked (answer : Option SessionState) (r : JobStream) : JobStream :=
  { r with
    checks := r.checks - 1
    states := r.states ++ answer.toList
    closed := r.closed || answer.any fun state => state.status ≠ "RUNNING" }

/-- The loop's turn, from an answer on. -/
def settle (attempt : ℕ) (cancelled : Bool) (answer : Option SessionState) (r : JobStream) : JobStream :=
  { r with
    states := r.states ++ answer.toList
    settling :=
      if cancelled || answer.any fun state => state.status ≠ "RUNNING" then .done else .waiting attempt }

def nextTurn (attempt : ℕ) (cancelled : Bool) (r : JobStream) : JobStream :=
  { r with settling := if attempt + 1 < 6 && !cancelled then .asking (attempt + 1) else .done }

end JobStream

inductive PaneAction
  /-- `onopen` -/
  | opened (run : ℕ)
  /-- `onerror` -/
  | failed (run : ℕ)
  | delivered (run : ℕ) (sse : Sse)
  /-- A request that only shows its answer is answered, or throws. -/
  | answered (run : ℕ) (answer : Option SessionState)
  | checked (run : ℕ) (answer : Option SessionState)
  | settled (run : ℕ) (answer : Option SessionState)
  | settleTimer (run : ℕ)
  | effects
  /-- With the job that the page displays. -/
  | render (jobId : Option String)

namespace Pane

def enqueue (updates : List PaneUpdate) (s : Pane) : Pane := { s with queue := s.queue ++ updates }

/-- What the next render shows, of the same job. -/
def pending (s : Pane) : PaneShown := s.queue.foldl PaneUpdate.apply s.shown

def runEffects (s : Pane) : Pane :=
  if s.stream.deps = some s.shown.jobId then s
  else { s.enqueue [.clear] with stream := s.stream.sync startStream s.shown.jobId }

/-- The effect of the render before runs first. -/
def render (jobId : Option String) (s : Pane) : Pane :=
  { s.runEffects with shown := { s.runEffects.pending with jobId := jobId }, queue := [] }

/-- The source delivers nothing once it is closed; the cleanup closes it. -/
def listening (run : Run JobStream) : Bool := !run.cancelled && !run.state.closed

/-- An answer is shown unless the run is cancelled. -/
def shows (cancelled : Bool) (answer : Option SessionState) : List PaneUpdate :=
  if cancelled then [] else answer.toList.map .setState

/-- Run `i` goes on, and writes. -/
def goOn (i : ℕ) (f : JobStream → JobStream) (updates : List PaneUpdate) (s : Pane) : Pane :=
  { s.enqueue updates with stream := s.stream.modify i f }

def step (showTokenStream : Bool) (s : Pane) : PaneAction → Option Pane
  | .opened i => (s.stream.runs[i]?.filter listening).map fun _ => s.goOn i id [.setLive true]
  | .failed i => (s.stream.runs[i]?.filter listening).map fun _ => s.goOn i .ask [.setLive false]
  | .delivered i sse => (s.stream.runs[i]?.filter listening).map fun _ =>
      s.goOn i (.deliver showTokenStream sse) (JobStream.updates showTokenStream sse)
  | .answered i answer => (s.stream.runs[i]?.filter fun run => 0 < run.state.requests).map fun run =>
      s.goOn i (.answered answer) (shows run.cancelled answer)
  | .checked i answer => (s.stream.runs[i]?.filter fun run => 0 < run.state.checks).map fun run =>
      s.goOn i (.checked answer) (shows run.cancelled answer)
  | .settled i answer => s.stream.runs[i]?.bind fun run =>
      match run.state.settling with
      | .asking attempt => some (s.goOn i (.settle attempt run.cancelled answer) (shows run.cancelled answer))
      | .no => none
      | .waiting _ => none
      | .done => none
  | .settleTimer i => s.stream.runs[i]?.bind fun run =>
      match run.state.settling with
      | .waiting attempt => some (s.goOn i (.nextTurn attempt run.cancelled) [])
      | .no => none
      | .asking _ => none
      | .done => none
  | .effects => some s.runEffects
  | .render jobId => some (s.render jobId)

/-- What a click on Approve or Deny answers: the job, and the interrupt. -/
def approval (s : Pane) : Option (String × String) := do
  let jobId ← s.shown.jobId
  let pending ← (← s.shown.state).pendingApproval
  return (jobId, pending.interruptId)

end Pane

/-! ## What a stream has given -/

namespace JobStream

/-- The entries of what was delivered. -/
def transcript (showTokenStream : Bool) (r : JobStream) : List Entry :=
  (r.events.filterMap (received showTokenStream)).foldl append []

/-- The state was answered, or it was but for a pending approval. -/
def Reports (r : JobStream) (state : SessionState) : Prop :=
  ∃ answer ∈ r.states, state = answer ∨ state = { answer with pendingApproval := none }

/-- The event is a `job_finished` that its listener takes. -/
def Finishes (showTokenStream : Bool) (sse : Sse) : Prop :=
  sse.event = "job_finished" ∧ (received showTokenStream sse).isSome

/-- What is shown comes from this stream, and a session that has finished is
not live. -/
structure Shows (showTokenStream : Bool) (r : JobStream) (shown : PaneShown) : Prop where
  entries : shown.entries = r.transcript showTokenStream
  state : ∀ state, shown.state = some state → r.Reports state
  settles : ∀ sse ∈ r.events, Finishes showTokenStream sse → r.settling ≠ .no
  finished : r.settling ≠ .no → r.closed = true ∧ shown.live = false

variable {showTokenStream : Bool} {r : JobStream} {shown : PaneShown}

/-- The items of the stream as one subscription without interruption shows them. -/
theorem transcript_items {jobId : String} {items : List StreamItem} (h : r.events = items.filterMap (sseEvent jobId)) :
    r.transcript showTokenStream = ControlPlane.transcript jobId showTokenStream items := by
  rw [transcript, h, List.filterMap_filterMap, ControlPlane.transcript]
  clear h
  generalize ([] : List Entry) = entries
  induction items generalizing entries with
  | nil => rfl
  | cons item items ih =>
    rw [List.foldl_cons, List.filterMap_cons]
    unfold onItem shows
    rw [Option.bind_eq_bind]
    cases (sseEvent jobId item).bind (received showTokenStream) with
    | none => exact ih entries
    | some entry => exact ih (append entries entry)

theorem transcript_snoc (showTokenStream : Bool) (r : JobStream) (sse : Sse) :
    ((r.events ++ [sse]).filterMap (received showTokenStream)).foldl append [] =
      ((received showTokenStream sse).toList).foldl append (r.transcript showTokenStream) := by
  rw [List.filterMap_append, List.foldl_append]
  unfold transcript
  cases h : received showTokenStream sse with
  | none => simp [h]
  | some entry => simp [h]

theorem Reports.mono {r' : JobStream} {state : SessionState} (h : r.Reports state) (hs : ∀ answer ∈ r.states, answer ∈ r'.states) :
    r'.Reports state := by
  obtain ⟨answer, ha, he⟩ := h
  exact ⟨answer, hs answer ha, he⟩

/-- An answer that is written, if there is one. -/
theorem Shows.answer (h : r.Shows showTokenStream shown) {r' : JobStream} (answer : Option SessionState)
    (hevents : r'.events = r.events) (hstates : r'.states = r.states ++ answer.toList)
    (hsettling : r'.settling ≠ .no ↔ r.settling ≠ .no) (hclosed : r.closed = true → r'.closed = true) :
    r'.Shows showTokenStream ((Pane.shows false answer).foldl PaneUpdate.apply shown) := by
  have hkeep : ∀ a ∈ r.states, a ∈ r'.states := by
    intro a ha
    rw [hstates]
    exact List.mem_append_left _ ha
  have hentries : r.transcript showTokenStream = r'.transcript showTokenStream := by rw [transcript, transcript, hevents]
  have hsettles : ∀ sse ∈ r'.events, Finishes showTokenStream sse → r'.settling ≠ .no := by
    rw [hevents]
    exact fun sse hs hf => hsettling.mpr (h.settles sse hs hf)
  cases answer with
  | none =>
    exact ⟨h.entries.trans hentries, fun state hs => (h.state state hs).mono hkeep, hsettles,
      fun hf => (h.finished (hsettling.mp hf)).imp_left hclosed⟩
  | some answer =>
    refine ⟨h.entries.trans hentries, fun state hs => ?_, hsettles,
      fun hf => (h.finished (hsettling.mp hf)).imp_left hclosed⟩
    cases hs
    exact ⟨answer, by simp [hstates], .inl rfl⟩

/-- An event of a source that is open. -/
theorem Shows.deliver (h : r.Shows showTokenStream shown) (hopen : r.closed = false) (sse : Sse) :
    (r.deliver showTokenStream sse).Shows showTokenStream
      ((updates showTokenStream sse).foldl PaneUpdate.apply shown) := by
  have hsettling : r.settling = .no := by
    by_contra hne
    cases hopen.symm.trans (h.finished hne).1
  have hsnoc := transcript_snoc showTokenStream r sse
  rw [← h.entries] at hsnoc
  have hsettles (hn : ¬ Finishes showTokenStream sse) :
      ∀ other ∈ r.events ++ [sse], Finishes showTokenStream other → r.settling ≠ .no := by
    intro other hm hf
    rcases List.mem_append.mp hm with hm | hm
    · exact h.settles other hm hf
    · cases List.mem_singleton.mp hm
      exact absurd hf hn
  unfold JobStream.deliver updates
  cases hr : received showTokenStream sse with
  | none =>
    rw [hr] at hsnoc
    have hn : ¬ Finishes showTokenStream sse := by
      rintro ⟨-, hf⟩
      rw [hr] at hf
      cases hf
    exact ⟨hsnoc.symm, fun state hs => h.state state hs, hsettles hn, fun hf => absurd hsettling hf⟩
  | some entry =>
    rw [hr] at hsnoc
    by_cases hp : sse.event = "approval_pending"
    · have hn : ¬ Finishes showTokenStream sse := fun hf => absurd (hp.symm.trans hf.1) (by decide)
      simp only [hp, if_true]
      exact ⟨hsnoc.symm, fun state hs => h.state state hs, hsettles hn, fun hf => absurd hsettling hf⟩
    · by_cases hres : sse.event = "approval_resumed"
      · have hn : ¬ Finishes showTokenStream sse := fun hf => absurd (hres.symm.trans hf.1) (by decide)
        simp only [hres, if_true]
        refine ⟨hsnoc.symm, fun state hs => ?_, hsettles hn, fun hf => absurd hsettling hf⟩
        obtain ⟨prev, hprev, rfl⟩ := Option.map_eq_some_iff.mp hs
        obtain ⟨answer, ha, he⟩ := h.state prev hprev
        refine ⟨answer, ha, .inr ?_⟩
        rcases he with rfl | rfl
        · rfl
        · rfl
      · by_cases hfin : sse.event = "job_finished"
        · simp only [hfin, if_true]
          exact ⟨hsnoc.symm, fun state hs => h.state state hs, fun _ _ _ => nofun, fun _ => ⟨rfl, rfl⟩⟩
        · have hn : ¬ Finishes showTokenStream sse := fun hf => hfin hf.1
          simp only [hp, hres, hfin, if_false]
          exact ⟨hsnoc.symm, fun state hs => h.state state hs, hsettles hn, fun hf => absurd hsettling hf⟩

end JobStream

/-! ## What is on its way to the screen -/

namespace Pane

variable {showTokenStream : Bool} {s s' : Pane}

/-- A stream is of the job that the effect ran for. -/
def Fits (deps : Option String) (r : JobStream) : Prop := deps = some r.jobId

/-- What is so in every state: what the next render shows is the live stream's,
or nothing where no job is displayed. -/
structure Own (showTokenStream : Bool) (s : Pane) : Prop where
  lawful : s.stream.Lawful Fits
  started : s.stream.Started startStream
  live : ∀ i r, s.stream.Live i r → r.Shows showTokenStream s.pending
  blank : (∀ i r, ¬ s.stream.Live i r) → s.pending.entries = [] ∧ s.pending.state = none ∧ s.pending.live = false

theorem pending_goOn (i : ℕ) (f : JobStream → JobStream) (updates : List PaneUpdate) :
    (s.goOn i f updates).pending = updates.foldl PaneUpdate.apply s.pending := List.foldl_append

/-- The live stream goes on. -/
theorem Own.goOn (h : s.Own showTokenStream) {i : ℕ} {r : JobStream} (hl : s.stream.Live i r) {f : JobStream → JobStream}
    {updates : List PaneUpdate} (hf : ∀ r, (f r).jobId = r.jobId)
    (hs : (f r).Shows showTokenStream (updates.foldl PaneUpdate.apply s.pending)) :
    (s.goOn i f updates).Own showTokenStream := by
  have hlive : (s.goOn i f updates).stream.Live i (f r) := Effect.live_modify.mpr ⟨r, hl, (if_pos rfl).symm⟩
  have hlawful : (s.goOn i f updates).stream.Lawful Fits :=
    Effect.lawful_modify h.lawful i fun deps r hd => hd.trans (congrArg some (hf r).symm)
  refine ⟨hlawful, Effect.started_modify h.started i f, fun j r' hl' => ?_, fun hn => absurd hlive (hn i (f r))⟩
  obtain ⟨-, rfl⟩ := hlawful.unique hl' hlive
  rw [pending_goOn]
  exact hs

/-- A cancelled one does, and writes nothing. -/
theorem Own.goOn_cancelled (h : s.Own showTokenStream) {i : ℕ} {run : Run JobStream} (hrun : s.stream.runs[i]? = some run)
    (hc : run.cancelled = true) (f : JobStream → JobStream) : (s.goOn i f []).Own showTokenStream := by
  have hlive (j : ℕ) (r : JobStream) : (s.goOn i f []).stream.Live j r ↔ s.stream.Live j r :=
    Effect.live_modify_cancelled hrun hc
  refine ⟨Effect.lawful_modify_cancelled h.lawful f hrun hc, Effect.started_modify h.started i f, fun j r hl => ?_, fun hn => ?_⟩
  · rw [pending_goOn]
    exact h.live j r ((hlive j r).mp hl)
  · rw [pending_goOn]
    exact h.blank fun j r hl => hn j r ((hlive j r).mpr hl)

/-- A request's answer, to a run that is cancelled or not. -/
theorem Own.answer (h : s.Own showTokenStream) {i : ℕ} {run : Run JobStream} (hrun : s.stream.runs[i]? = some run)
    (answer : Option SessionState) {f : JobStream → JobStream} (hf : ∀ r, (f r).jobId = r.jobId)
    (hs : ∀ shown, run.state.Shows showTokenStream shown →
      (f run.state).Shows showTokenStream ((shows false answer).foldl PaneUpdate.apply shown)) :
    (s.goOn i f (shows run.cancelled answer)).Own showTokenStream := by
  obtain ⟨r, cancelled⟩ := run
  cases cancelled with
  | true => exact h.goOn_cancelled hrun rfl f
  | false => exact h.goOn hrun hf (hs _ (h.live i r hrun))

theorem live_of_listening {i : ℕ} {run : Run JobStream} (hrun : s.stream.runs[i]? = some run)
    (hl : listening run = true) : s.stream.Live i run.state ∧ run.state.closed = false := by
  obtain ⟨r, cancelled⟩ := run
  simp only [listening, Bool.and_eq_true, Bool.not_eq_true'] at hl
  obtain ⟨rfl, hclosed⟩ := hl
  exact ⟨hrun, hclosed⟩

/-- Another job, and so another stream, or none. -/
theorem Own.runEffects (h : s.Own showTokenStream) : s.runEffects.Own showTokenStream := by
  unfold Pane.runEffects
  split
  · exact h
  · rename_i hd
    have hlawful : (s.stream.sync startStream s.shown.jobId).Lawful Fits := by
      refine Effect.lawful_sync h.lawful (fun deps r hs => ?_) _
      obtain ⟨jobId, rfl, rfl⟩ := Option.map_eq_some_iff.mp hs
      rfl
    refine ⟨hlawful, Effect.started_sync h.started _, fun i r hl => ?_, fun _ => ?_⟩
    · rcases Effect.live_sync h.lawful hl with ⟨he, -⟩ | ⟨-, -, hs⟩
      · exact absurd he hd
      · obtain ⟨jobId, -, rfl⟩ := Option.map_eq_some_iff.mp hs
        show JobStream.Shows showTokenStream _ (List.foldl PaneUpdate.apply s.shown (s.queue ++ [.clear]))
        rw [List.foldl_append]
        exact ⟨rfl, nofun, fun _ hs => absurd hs List.not_mem_nil, fun hf => absurd rfl hf⟩
    · show (List.foldl PaneUpdate.apply s.shown (s.queue ++ [.clear])).entries = [] ∧ _
      simp only [Pane.pending, Pane.enqueue, List.foldl_append]
      exact ⟨rfl, rfl, rfl⟩

theorem Own.render (h : s.Own showTokenStream) (jobId : Option String) : (s.render jobId).Own showTokenStream where
  lawful := h.runEffects.lawful
  started := h.runEffects.started
  live := fun i r hl => ⟨(h.runEffects.live i r hl).entries, (h.runEffects.live i r hl).state,
    (h.runEffects.live i r hl).settles, (h.runEffects.live i r hl).finished⟩
  blank := h.runEffects.blank

theorem own_step {a : PaneAction} (h : s.Own showTokenStream) (hs : s.step showTokenStream a = some s') :
    s'.Own showTokenStream := by
  cases a with
  | opened i =>
    obtain ⟨run, hrun, rfl⟩ := Option.map_eq_some_iff.mp hs
    obtain ⟨hrun, hl⟩ := Option.filter_eq_some_iff.mp hrun
    obtain ⟨hl, hopen⟩ := live_of_listening hrun hl
    have hshows := h.live i _ hl
    refine h.goOn hl (fun _ => rfl) ⟨hshows.entries, hshows.state, hshows.settles, fun hf => ?_⟩
    cases hopen.symm.trans (hshows.finished hf).1
  | failed i =>
    obtain ⟨run, hrun, rfl⟩ := Option.map_eq_some_iff.mp hs
    obtain ⟨hrun, hl⟩ := Option.filter_eq_some_iff.mp hrun
    obtain ⟨hl, -⟩ := live_of_listening hrun hl
    have hshows := h.live i _ hl
    exact h.goOn hl (fun _ => rfl)
      ⟨hshows.entries, hshows.state, hshows.settles, fun hf => ⟨(hshows.finished hf).1, rfl⟩⟩
  | delivered i sse =>
    obtain ⟨run, hrun, rfl⟩ := Option.map_eq_some_iff.mp hs
    obtain ⟨hrun, hl⟩ := Option.filter_eq_some_iff.mp hrun
    obtain ⟨hl, hopen⟩ := live_of_listening hrun hl
    refine h.goOn hl (fun r => ?_) ((h.live i _ hl).deliver hopen sse)
    unfold JobStream.deliver
    split
    · rfl
    · split
      · rfl
      · split
        · rfl
        · rfl
  | answered i answer =>
    obtain ⟨run, hrun, rfl⟩ := Option.map_eq_some_iff.mp hs
    obtain ⟨hrun, -⟩ := Option.filter_eq_some_iff.mp hrun
    exact h.answer hrun answer (fun _ => rfl) fun shown hshows => hshows.answer answer rfl rfl Iff.rfl id
  | checked i answer =>
    obtain ⟨run, hrun, rfl⟩ := Option.map_eq_some_iff.mp hs
    obtain ⟨hrun, -⟩ := Option.filter_eq_some_iff.mp hrun
    exact h.answer hrun answer (fun _ => rfl) fun shown hshows =>
      hshows.answer answer rfl rfl Iff.rfl fun hc => by simp [JobStream.checked, hc]
  | settled i answer =>
    obtain ⟨run, hrun, hs⟩ := Option.bind_eq_some_iff.mp hs
    cases hset : run.state.settling with
    | asking attempt =>
      rw [hset] at hs
      cases hs
      have hsettling : (run.state.settle attempt run.cancelled answer).settling ≠ .no := by
        unfold JobStream.settle
        dsimp only
        split <;> exact nofun
      exact h.answer hrun answer (fun _ => rfl) fun shown hshows =>
        hshows.answer answer rfl rfl (iff_of_true hsettling fun hno => nomatch hset.symm.trans hno) id
    | no => rw [hset] at hs; cases hs
    | waiting attempt => rw [hset] at hs; cases hs
    | done => rw [hset] at hs; cases hs
  | settleTimer i =>
    obtain ⟨run, hrun, hs⟩ := Option.bind_eq_some_iff.mp hs
    cases hset : run.state.settling with
    | waiting attempt =>
      rw [hset] at hs
      cases hs
      have hnil : shows run.cancelled none = [] := ite_self []
      rw [← hnil]
      have hsettling : (run.state.nextTurn attempt run.cancelled).settling ≠ .no := by
        unfold JobStream.nextTurn
        dsimp only
        split <;> exact nofun
      exact h.answer hrun none (fun _ => rfl) fun shown hshows =>
        hshows.answer none rfl (List.append_nil _).symm
          (iff_of_true hsettling fun hno => nomatch hset.symm.trans hno) id
    | no => rw [hset] at hs; cases hs
    | asking attempt => rw [hset] at hs; cases hs
    | done => rw [hset] at hs; cases hs
  | effects => cases hs; exact h.runEffects
  | render jobId => cases hs; exact h.render jobId

theorem own_run {history : List PaneAction} (hr : run (step showTokenStream) {} history = some s) :
    s.Own showTokenStream :=
  run_keeps (I := fun _ s => s.Own showTokenStream)
    ⟨Effect.lawful_empty, Effect.started_empty _, fun _ _ hl => absurd hl Effect.not_live_empty, fun _ => ⟨rfl, rfl, rfl⟩⟩
    (fun _ _ _ _ h hs => own_step h hs) hr

/-- The pane shows the job's stream `r`. -/
structure ShowsJob (showTokenStream : Bool) (s : Pane) (jobId : String) (r : JobStream) : Prop where
  job : r.jobId = jobId
  entries : s.shown.entries = r.transcript showTokenStream
  /-- If all of the job's stream was delivered, the transcript is that of one
  subscription. -/
  whole : ∀ items, r.events = items.filterMap (sseEvent jobId) →
    s.shown.entries = ControlPlane.transcript jobId showTokenStream items
  state : ∀ state, s.shown.state = some state → r.Reports state
  /-- A click decides on an approval that was answered for the job. -/
  approval : ∀ clicked interruptId, s.approval = some (clicked, interruptId) → clicked = jobId ∧
    ∃ answer ∈ r.states, ∃ pending, answer.pendingApproval = some pending ∧ pending.interruptId = interruptId
  /-- A session whose stream has delivered `job_finished` is not shown live. -/
  finished : ∀ sse ∈ r.events, JobStream.Finishes showTokenStream sse → s.shown.live = false

end Pane

/-- **A pane of its own.** However late the answers for other jobs are: with
nothing queued, and the effect run for the job displayed, one stream is not
cancelled, and the pane shows that one. -/
theorem pane_own (showTokenStream : Bool) (history : List PaneAction) (s : Pane)
    (hr : run (Pane.step showTokenStream) {} history = some s) (hqueue : s.queue = [])
    (hdeps : s.stream.deps = some s.shown.jobId) :
    (∀ jobId, s.shown.jobId = some jobId → ∃ i r, s.stream.Live i r ∧ (∀ j r', s.stream.Live j r' → j = i) ∧
      s.ShowsJob showTokenStream jobId r) ∧
    (s.shown.jobId = none → (∀ i r, ¬ s.stream.Live i r) ∧ s.shown.entries = [] ∧ s.shown.state = none ∧
      s.shown.live = false) := by
  have h := Pane.own_run hr
  have hshown : s.pending = s.shown := by rw [Pane.pending, hqueue]; rfl
  constructor
  · intro jobId hj
    rw [hj] at hdeps
    obtain ⟨i, r, hl⟩ := h.started (some jobId) { jobId := jobId } hdeps rfl
    obtain ⟨-, deps, hd, hfits⟩ := h.lawful i r hl
    have hjob : r.jobId = jobId := by
      cases hdeps.symm.trans hd
      exact (Option.some.inj hfits).symm
    have hshows := h.live i r hl
    rw [hshown] at hshows
    refine ⟨i, r, hl, fun j r' hl' => (h.lawful.unique hl' hl).1, hjob, hshows.entries, fun items he => ?_, hshows.state,
      fun clicked interruptId ha => ?_, fun sse hs hf => (hshows.finished (hshows.settles sse hs hf)).2⟩
    · exact hshows.entries.trans (JobStream.transcript_items he)
    · simp only [Pane.approval, hj, Option.bind_eq_bind, Option.bind_eq_some_iff, Option.pure_def, Option.some.injEq,
        Prod.mk.injEq] at ha
      obtain ⟨_, rfl, state, hstate, pending, hpending, rfl, rfl⟩ := ha
      obtain ⟨answer, hanswer, he | he⟩ := hshows.state state hstate
      · exact ⟨rfl, answer, hanswer, pending, he ▸ hpending, rfl⟩
      · rw [he] at hpending
        cases hpending
  · intro hj
    rw [hj] at hdeps
    have hdead : ∀ i r, ¬ s.stream.Live i r := by
      intro i r hl
      obtain ⟨-, deps, hd, hfits⟩ := h.lawful i r hl
      cases hdeps.symm.trans hd
      cases hfits
    have hblank := h.blank hdead
    rw [hshown] at hblank
    exact ⟨hdead, hblank⟩

/-- A session that waits for an approval, and another one that is started
before that is answered. -/
def overtaken : List PaneAction :=
  [.render (some "session-1"), .effects, .opened 0,
    .delivered 0 ⟨"approval_pending", UIEvent.modelDump "session-1" (.approvalPending ⟨"i-1", "issue_payment", [], "p"⟩)⟩,
    .render (some "session-1"), .render (some "session-2"), .effects,
    .answered 0 (some { jobId := "session-1", status := "RUNNING", pendingApproval := some ⟨"i-1", "issue_payment", [], "p"⟩ }),
    .opened 1, .delivered 1 ⟨"job_started", UIEvent.modelDump "session-2" (.jobStarted hostedJob)⟩,
    .render (some "session-2")]

theorem pane_own_overtaken : ∃ s, run (Pane.step false) {} overtaken = some s ∧ s.approval = none ∧
    ∃ r, s.ShowsJob false "session-2" r := by
  refine ⟨_, rfl, rfl, ?_⟩
  obtain ⟨-, r, -, -, h⟩ := (pane_own false overtaken _ rfl rfl rfl).1 "session-2" rfl
  exact ⟨r, h⟩

end ControlPlane
