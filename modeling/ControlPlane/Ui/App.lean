import ControlPlane.Lib.Effect
import ControlPlane.Lib.Machine
import ControlPlane.Registry.Models

/-!
# The session on screen

`App.tsx`: which job the page shows. One effect follows the selected tenant's
newest job, another resolves the pinned one; both ask the API again and again,
and write the same state. What they write is queued until the next render
(`App.render`), and effects whose dependencies have changed run some time after
it, at the latest before the next (`App.runEffects`).

`pinned_stays`: the job that the pinned job's lookup has shown stays.
-/

namespace ControlPlane

open Component Machine

/-! ## State -/

structure Shown where
  tenantId : Option String := none
  job : Option Job := none
  pinnedJobId : Option String := none

/-- A call of a setter. -/
inductive Update
  /-- `setTenantId((current) => current ?? nextTenants[0]?.tenant_id ?? null)` -/
  | firstTenant (first : Option String)
  | setTenantId (next : String)
  | setPinnedJobId (jobId : Option String)
  /-- `setJob((current) => ...)`, of the tenant's newest job. -/
  | followJob (newest : Option Job)
  | setJob (pinned : Job)

def Update.apply (s : Shown) : Update → Shown
  | firstTenant first => { s with tenantId := s.tenantId.or first }
  | setTenantId next => { s with tenantId := some next }
  | setPinnedJobId jobId => { s with pinnedJobId := jobId }
  | followJob newest => { s with job := if s.job.map Job.jobId = newest.map Job.jobId then s.job else newest }
  | setJob pinned => { s with job := some pinned }

/-- Where a run of an effect is in its loop. -/
inductive FetchPhase
  | asking
  /-- For the timer. -/
  | waiting
  | resolved (job : Job)
  | stopped

/-- A run's variables: the id it closes over, and where it is. -/
structure Fetch where
  arg : String
  phase : FetchPhase := .asking

def Fetch.goTo (phase : FetchPhase) (fetch : Fetch) : Fetch := { fetch with phase := phase }

/-- A string that is neither null nor empty. -/
def truthy (s : Option String) : Option String := s.filter (· ≠ "")

/-- `if (!tenantId || pinnedJobId) return;` -/
def startPoll : Option String × Option String → Option Fetch
  | (tenantId, pinnedJobId) =>
    match truthy pinnedJobId with
    | some _ => none
    | none => (truthy tenantId).map fun arg => { arg := arg }

/-- `if (!pinnedJobId) return;` -/
def startLookup (pinnedJobId : Option String) : Option Fetch := (truthy pinnedJobId).map fun arg => { arg := arg }

structure App where
  shown : Shown := {}
  queue : List Update := []
  poll : Effect (Option String × Option String) Fetch := {}
  lookup : Effect (Option String) Fetch := {}

/-! ## Steps -/

inductive AppAction
  /-- `refresh` is answered, with the first tenant. -/
  | refreshed (first : Option String)
  /-- `onStarted` -/
  | started (jobId : String)
  | selectTenant (next : String)
  /-- `api.jobs` answers a poll, or throws. -/
  | polled (run : ℕ) (jobs : Option (List Job))
  | pollTimer (run : ℕ)
  /-- `api.job` answers a lookup, or throws. -/
  | lookedUp (run : ℕ) (job : Option Job)
  | lookupTimer (run : ℕ)
  | effects
  | render

namespace App

def enqueue (updates : List Update) (s : App) : App := { s with queue := s.queue ++ updates }

/-- What the next render shows. -/
def pending (s : App) : Shown := s.queue.foldl Update.apply s.shown

def runEffects (s : App) : App := { s with
  poll := s.poll.sync startPoll (s.shown.tenantId, s.shown.pinnedJobId)
  lookup := s.lookup.sync startLookup s.shown.pinnedJobId }

/-- The effects of the render before run first. -/
def render (s : App) : App := { s.runEffects with shown := s.pending, queue := [] }

def selectTenant (next : String) (s : App) : App := s.enqueue [.setPinnedJobId none, .setTenantId next]

def asking (run : Run Fetch) : Bool :=
  match run.state.phase with
  | .asking => true
  | .waiting => false
  | .resolved _ => false
  | .stopped => false

/-- A timer is cleared by the cleanup, or never set after it. -/
def timed (run : Run Fetch) : Bool :=
  match run.cancelled, run.state.phase with
  | true, _ => false
  | false, .asking => false
  | false, .waiting => true
  | false, .resolved _ => false
  | false, .stopped => false

/-- The first effect's loop, from an answer on. -/
def polled (i : ℕ) (cancelled : Bool) (jobs : Option (List Job)) (s : App) : App :=
  match cancelled, jobs with
  | true, _ => { s with poll := s.poll.modify i (.goTo .stopped) }
  | false, some jobs => { s.enqueue [.followJob jobs.head?] with poll := s.poll.modify i (.goTo .waiting) }
  | false, none => { s with poll := s.poll.modify i (.goTo .waiting) }

/-- `resolve`, from an answer on. -/
def lookedUp (i : ℕ) (cancelled : Bool) (job : Option Job) (s : App) : App :=
  match cancelled, job with
  | true, _ => { s with lookup := s.lookup.modify i (.goTo .stopped) }
  | false, some job => { s.enqueue [.setJob job] with lookup := s.lookup.modify i (.goTo (.resolved job)) }
  | false, none => { s with lookup := s.lookup.modify i (.goTo .waiting) }

def step (s : App) : AppAction → Option App
  | .refreshed first => some (s.enqueue [.firstTenant first])
  | .started jobId => some (s.enqueue [.setPinnedJobId (some jobId)])
  | .selectTenant next => some (s.selectTenant next)
  | .polled i jobs => (s.poll.runs[i]?.filter asking).map fun run => s.polled i run.cancelled jobs
  | .pollTimer i => (s.poll.runs[i]?.filter timed).map fun _ => { s with poll := s.poll.modify i (.goTo .asking) }
  | .lookedUp i job => (s.lookup.runs[i]?.filter asking).map fun run => s.lookedUp i run.cancelled job
  | .lookupTimer i => (s.lookup.runs[i]?.filter timed).map fun _ => { s with lookup := s.lookup.modify i (.goTo .asking) }
  | .effects => some s.runEffects
  | .render => some s.render

end App

/-! ## Pins -/

/-- No tenant is selected, and no other session pinned. -/
def Update.Keeps (jobId : String) : Update → Prop
  | setTenantId _ => False
  | setPinnedJobId pinned => pinned = some jobId
  | firstTenant _ | followJob _ | setJob _ => True

def AppAction.Keeps (jobId : String) : AppAction → Prop
  | selectTenant _ => False
  | started other => other = jobId
  | refreshed _ | polled _ _ | pollTimer _ | lookedUp _ _ | lookupTimer _ | effects | render => True

/-- The lookup of the currently pinned job has set the displayed job: it has
answered with it, and nothing that is queued releases the pin. -/
structure App.LookedUp (s : App) (jobId : String) (job : Job) : Prop where
  pinned : s.shown.pinnedJobId = some jobId
  queued : ∀ update ∈ s.queue, update.Keeps jobId
  resolved : ∃ i, s.lookup.Live i { arg := jobId, phase := .resolved job }
  job : s.shown.job = some job

namespace App

/-- A poll is live while nothing is pinned. -/
def PollFits (deps : Option String × Option String) (_ : Fetch) : Prop := truthy deps.2 = none

/-- A lookup is live while its job is pinned. -/
def LookupFits (pinnedJobId : Option String) (fetch : Fetch) : Prop := truthy pinnedJobId = some fetch.arg

theorem fits_startPoll (deps : Option String × Option String) (fetch : Fetch) (h : startPoll deps = some fetch) :
    PollFits deps fetch := by
  obtain ⟨tenantId, pinnedJobId⟩ := deps
  cases hp : truthy pinnedJobId with
  | none => exact hp
  | some jobId =>
    rw [startPoll, hp] at h
    cases h

theorem fits_startLookup (pinnedJobId : Option String) (fetch : Fetch) (h : startLookup pinnedJobId = some fetch) :
    LookupFits pinnedJobId fetch ∧ fetch.phase = .asking := by
  obtain ⟨jobId, hp, rfl⟩ := Option.map_eq_some_iff.mp h
  exact ⟨hp, rfl⟩

/-- What is so in every state: the effects run together, and what the live
lookup has answered is on its way to the screen, with nothing after it. -/
structure Follows (s : App) : Prop where
  poll : s.poll.Lawful PollFits
  lookup : s.lookup.Lawful LookupFits
  deps : s.poll.deps.map Prod.snd = s.lookup.deps
  resolved : ∀ i fetch job, s.lookup.Live i fetch → fetch.phase = .resolved job → s.pending.job = some job

section

variable {s : App} {jobId : String} {job : Job}

theorem pending_enqueue (updates : List Update) : (s.enqueue updates).pending = updates.foldl Update.apply s.pending :=
  List.foldl_append

/-- While a lookup is live, no poll is. -/
theorem Follows.no_poll (h : s.Follows) {i j : ℕ} {asks fetch : Fetch} (hp : s.poll.Live i asks)
    (hl : s.lookup.Live j fetch) : False := by
  obtain ⟨-, ⟨tenantId, pinned⟩, hd, hnone⟩ := h.poll i asks hp
  obtain ⟨-, pinned', hd', hsome⟩ := h.lookup j fetch hl
  have he := h.deps
  rw [hd, hd'] at he
  cases he
  cases hnone.symm.trans hsome

/-- Updates that leave the job alone. -/
theorem Follows.enqueue (h : s.Follows) {updates : List Update}
    (hjob : ∀ shown : Shown, (updates.foldl Update.apply shown).job = shown.job) : (s.enqueue updates).Follows where
  poll := h.poll
  lookup := h.lookup
  deps := h.deps
  resolved := by
    intro i fetch job hl hp
    rw [pending_enqueue, hjob]
    exact h.resolved i fetch job hl hp

theorem Follows.runEffects (h : s.Follows) : s.runEffects.Follows where
  poll := Effect.lawful_sync h.poll fits_startPoll _
  lookup := Effect.lawful_sync h.lookup (fun deps fetch hs => (fits_startLookup deps fetch hs).1) _
  deps := by simp [App.runEffects]
  resolved := by
    intro i fetch job hl hp
    rcases Effect.live_sync h.lookup hl with ⟨-, hl⟩ | ⟨-, -, hs⟩
    · exact h.resolved i fetch job hl hp
    · cases (fits_startLookup _ fetch hs).2.symm.trans hp

theorem Follows.render (h : s.Follows) : s.render.Follows where
  poll := h.runEffects.poll
  lookup := h.runEffects.lookup
  deps := h.runEffects.deps
  resolved := h.runEffects.resolved

/-- A poll that goes on. -/
theorem Follows.modify_poll (h : s.Follows) (i : ℕ) (phase : FetchPhase) :
    Follows { s with poll := s.poll.modify i (.goTo phase) } where
  poll := Effect.lawful_modify h.poll i fun _ _ hf => hf
  lookup := h.lookup
  deps := h.deps
  resolved := h.resolved

/-- A lookup that goes on without an answer. -/
theorem Follows.modify_lookup (h : s.Follows) (i : ℕ) {phase : FetchPhase} (hphase : ∀ job, phase ≠ .resolved job) :
    Follows { s with lookup := s.lookup.modify i (.goTo phase) } where
  poll := h.poll
  lookup := Effect.lawful_modify h.lookup i fun _ _ hf => hf
  deps := h.deps
  resolved := by
    intro j fetch job hl hp
    obtain ⟨before, hbefore, rfl⟩ := Effect.live_modify.mp hl
    split at hp
    · exact absurd hp (hphase job)
    · exact h.resolved j before job hbefore hp

/-- A poll's answer: where a lookup is live, the poll is cancelled. -/
theorem Follows.polled (h : s.Follows) {i : ℕ} {run : Run Fetch} (hrun : s.poll.runs[i]? = some run)
    (jobs : Option (List Job)) : (s.polled i run.cancelled jobs).Follows := by
  obtain ⟨asks, _ | _⟩ := run
  · cases jobs with
    | none => exact h.modify_poll i .waiting
    | some jobs =>
      have hf := h.modify_poll i .waiting
      exact ⟨hf.poll, hf.lookup, hf.deps, fun j fetch _ hl => (h.no_poll hrun hl).elim⟩
  · exact h.modify_poll i .stopped

/-- A lookup's answer. -/
theorem Follows.lookedUp (h : s.Follows) {i : ℕ} {run : Run Fetch} (hrun : s.lookup.runs[i]? = some run)
    (job : Option Job) : (s.lookedUp i run.cancelled job).Follows := by
  obtain ⟨asks, _ | _⟩ := run
  · cases job with
    | none => exact h.modify_lookup i nofun
    | some job =>
      refine ⟨h.poll, Effect.lawful_modify h.lookup i fun _ _ hf => hf, h.deps, fun j fetch other hl hp => ?_⟩
      obtain ⟨before, hbefore, rfl⟩ := Effect.live_modify.mp hl
      obtain ⟨rfl, rfl⟩ := h.lookup.unique hrun hbefore
      rw [if_pos rfl] at hp
      cases hp
      show (s.enqueue [.setJob job]).pending.job = some job
      rw [pending_enqueue]
      rfl
  · exact h.modify_lookup i nofun

theorem follows_step {s' : App} {a : AppAction} (h : s.Follows) (hs : s.step a = some s') : s'.Follows := by
  cases a with
  | refreshed first => cases hs; exact h.enqueue fun _ => rfl
  | started jobId => cases hs; exact h.enqueue fun _ => rfl
  | selectTenant next => cases hs; exact h.enqueue fun _ => rfl
  | polled i jobs =>
    obtain ⟨run, hrun, rfl⟩ := Option.map_eq_some_iff.mp hs
    exact h.polled (Option.filter_eq_some_iff.mp hrun).1 jobs
  | pollTimer i =>
    obtain ⟨run, hrun, rfl⟩ := Option.map_eq_some_iff.mp hs
    exact h.modify_poll i .asking
  | lookedUp i job =>
    obtain ⟨run, hrun, rfl⟩ := Option.map_eq_some_iff.mp hs
    exact h.lookedUp (Option.filter_eq_some_iff.mp hrun).1 job
  | lookupTimer i =>
    obtain ⟨run, hrun, rfl⟩ := Option.map_eq_some_iff.mp hs
    exact h.modify_lookup i nofun
  | effects => cases hs; exact h.runEffects
  | render => cases hs; exact h.render

theorem run_follows {history : List AppAction} (hr : run step {} history = some s) : s.Follows := by
  refine run_keeps (I := fun _ s => s.Follows) ?_ (fun _ s a s' h hs => follows_step h hs) hr
  exact ⟨Effect.lawful_empty, Effect.lawful_empty, rfl, fun i fetch _ hl => absurd hl Effect.not_live_empty⟩

/-! ## The pinned session -/

/-- Updates that keep a pin, of what is shown. -/
theorem pinned_foldl {updates : List Update} (h : ∀ update ∈ updates, update.Keeps jobId) {shown : Shown}
    (hp : shown.pinnedJobId = some jobId) : (updates.foldl Update.apply shown).pinnedJobId = some jobId := by
  induction updates generalizing shown with
  | nil => exact hp
  | cons update updates ih =>
    obtain ⟨hkeeps, h⟩ := List.forall_mem_cons.mp h
    refine ih h ?_
    cases update with
    | setTenantId next => exact hkeeps.elim
    | setPinnedJobId pinned => exact hkeeps
    | firstTenant first => exact hp
    | followJob newest => exact hp
    | setJob pinned => exact hp

theorem LookedUp.enqueue (hl : s.LookedUp jobId job) {updates : List Update}
    (hkeeps : ∀ update ∈ updates, update.Keeps jobId) : (s.enqueue updates).LookedUp jobId job where
  pinned := hl.pinned
  queued := List.forall_mem_append.mpr ⟨hl.queued, hkeeps⟩
  resolved := hl.resolved
  job := hl.job

/-- The pin has not changed, so its lookup runs on. -/
theorem LookedUp.runEffects (h : s.Follows) (hl : s.LookedUp jobId job) : s.runEffects.LookedUp jobId job where
  pinned := hl.pinned
  queued := hl.queued
  resolved := by
    obtain ⟨i, hlive⟩ := hl.resolved
    obtain ⟨-, deps, hd, hfits⟩ := h.lookup i _ hlive
    have hdeps : deps = s.shown.pinnedJobId := (Option.filter_eq_some_iff.mp hfits).1.trans hl.pinned.symm
    refine ⟨i, ?_⟩
    show (s.lookup.sync startLookup s.shown.pinnedJobId).Live i _
    rw [Effect.sync, if_pos (hdeps ▸ hd)]
    exact hlive
  job := hl.job

/-- A render shows what the lookup has answered. -/
theorem LookedUp.render (h : s.Follows) (hl : s.LookedUp jobId job) : s.render.LookedUp jobId job where
  pinned := pinned_foldl hl.queued hl.pinned
  queued := List.forall_mem_nil _
  resolved := (hl.runEffects h).resolved
  job := by
    obtain ⟨i, hlive⟩ := hl.resolved
    exact h.resolved i _ job hlive rfl

/-- A run that has not answered is not the one that has. -/
theorem LookedUp.modify_lookup (hl : s.LookedUp jobId job) {i : ℕ} {run : Run Fetch} {phase : FetchPhase}
    (hrun : s.lookup.runs[i]? = some run) (hphase : run.state.phase ≠ .resolved job) :
    LookedUp { s with lookup := s.lookup.modify i (.goTo phase) } jobId job where
  pinned := hl.pinned
  queued := hl.queued
  resolved := by
    obtain ⟨j, hlive⟩ := hl.resolved
    have hij : i ≠ j := by
      rintro rfl
      cases hrun.symm.trans hlive
      exact hphase rfl
    exact ⟨j, Effect.live_modify.mpr ⟨_, hlive, (if_neg hij).symm⟩⟩
  job := hl.job

theorem lookedUp_step {s' : App} {a : AppAction} (h : s.Follows) (hl : s.LookedUp jobId job) (ha : a.Keeps jobId)
    (hs : s.step a = some s') : s'.LookedUp jobId job := by
  obtain ⟨k, hlive⟩ := hl.resolved
  cases a with
  | refreshed first => cases hs; exact hl.enqueue (List.forall_mem_singleton.mpr trivial)
  | started other =>
    cases hs
    exact hl.enqueue (List.forall_mem_singleton.mpr (congrArg some ha))
  | selectTenant next => exact ha.elim
  | polled i jobs =>
    obtain ⟨⟨asks, cancelled⟩, hrun, rfl⟩ := Option.map_eq_some_iff.mp hs
    cases cancelled with
    | true => exact ⟨hl.pinned, hl.queued, hl.resolved, hl.job⟩
    | false => exact (h.no_poll (Option.filter_eq_some_iff.mp hrun).1 hlive).elim
  | pollTimer i =>
    obtain ⟨run, hrun, rfl⟩ := Option.map_eq_some_iff.mp hs
    exact ⟨hl.pinned, hl.queued, hl.resolved, hl.job⟩
  | lookedUp i answer =>
    obtain ⟨⟨asks, cancelled⟩, hrun, rfl⟩ := Option.map_eq_some_iff.mp hs
    obtain ⟨hrun, hasks⟩ := Option.filter_eq_some_iff.mp hrun
    have hphase : asks.phase ≠ .resolved job := by
      intro hp
      rw [asking, hp] at hasks
      cases hasks
    cases cancelled with
    | true => exact hl.modify_lookup hrun hphase
    | false =>
      obtain ⟨rfl, rfl⟩ := h.lookup.unique hrun hlive
      exact (hphase rfl).elim
  | lookupTimer i =>
    obtain ⟨⟨asks, cancelled⟩, hrun, rfl⟩ := Option.map_eq_some_iff.mp hs
    obtain ⟨hrun, htimed⟩ := Option.filter_eq_some_iff.mp hrun
    refine hl.modify_lookup hrun fun hp => ?_
    obtain ⟨arg, phase⟩ := asks
    cases hp
    cases cancelled with
    | true => cases htimed
    | false => cases htimed
  | effects => cases hs; exact hl.runEffects h
  | render => cases hs; exact hl.render h

end

end App

/-- **Pins.** Once the lookup of the pinned job has set the displayed job, the
displayed job stays that job, in every run in which no tenant is selected and
no other session pinned: whatever is answered, and however late. -/
theorem pinned_stays (before after : List AppAction) (s s' : App) (jobId : String) (job : Job)
    (hr : run App.step {} before = some s) (hl : s.LookedUp jobId job) (hkeeps : ∀ a ∈ after, a.Keeps jobId)
    (hr' : run App.step s after = some s') : s'.shown.job = some job := by
  have hall : (∀ a ∈ after, a.Keeps jobId) → s'.Follows ∧ s'.LookedUp jobId job := by
    refine run_keeps (I := fun after s' => (∀ a ∈ after, a.Keeps jobId) → s'.Follows ∧ s'.LookedUp jobId job) ?_ ?_ hr'
    · exact fun _ => ⟨App.run_follows hr, hl⟩
    · intro history s₁ a s₂ ih hs hkeeps
      obtain ⟨hbefore, ha⟩ := List.forall_mem_append.mp hkeeps
      obtain ⟨h, hl⟩ := ih hbefore
      exact ⟨App.follows_step h hs, App.lookedUp_step h hl (List.forall_mem_singleton.mp ha) hs⟩
  exact (hall hkeeps).2.job

/-! ## A late flood -/

def explicitJob : Job where
  jobId := "session-returns-triage-e61520b3"
  tenantId := "initech"
  agentId := "returns-triage"
  workflowId := "session-returns-triage-e61520b3"
  status := .running
  priorityKey := 3
  createdAt := "2026-09-04T09:00:00Z"

def newerJob : Job where
  jobId := "flood-initech-c3e1f525"
  tenantId := "initech"
  agentId := "incident-triage"
  workflowId := "flood-initech-c3e1f525"
  status := .queued
  priorityKey := 3
  createdAt := "2026-09-04T09:00:02Z"

/-- The second tenant's poll answers when the session is pinned, before the
effects run; the lookup fails once. -/
def startsSession : List AppAction :=
  [.effects, .refreshed (some "acme"), .render, .effects, .selectTenant "initech", .render, .effects,
    .started explicitJob.jobId, .render, .polled 1 (some [newerJob]), .effects, .lookedUp 0 none, .lookupTimer 0,
    .lookedUp 0 (some explicitJob), .render]

/-- The first tenant's poll answers last. -/
def answersLate : List AppAction := [.polled 0 (some [newerJob]), .refreshed (some "acme"), .render]

theorem pinned_stays_flood :
    ∃ s s', run App.step {} startsSession = some s ∧ s.LookedUp explicitJob.jobId explicitJob ∧
      run App.step s answersLate = some s' ∧ s'.shown.job = some explicitJob := by
  refine ⟨_, _, rfl, ⟨rfl, List.forall_mem_nil _, ⟨0, rfl⟩, rfl⟩, rfl, ?_⟩
  refine pinned_stays startsSession answersLate _ _ explicitJob.jobId explicitJob rfl
    ⟨rfl, List.forall_mem_nil _, ⟨0, rfl⟩, rfl⟩ ?_ rfl
  simp [answersLate, AppAction.Keeps]

end ControlPlane
