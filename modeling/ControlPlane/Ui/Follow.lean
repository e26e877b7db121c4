import ControlPlane.Ui.App

/-!
# What the page follows

More of `App.tsx`, from one inversion of a step (`App.Moves`): the tenant that
was selected stays selected (`selected_stays`); the page shows the newest job
that the selected tenant's poll answered last (`follows_last`); and neither
loop dies, or asks twice at a time (`loops_alive`).
-/

namespace ControlPlane

open Component Machine

namespace App

/-- What a step does, with the guard it passed. -/
inductive Moves (s : App) : AppAction → App → Prop
  | refreshed (first : Option String) : Moves s (.refreshed first) (s.enqueue [.firstTenant first])
  | started (jobId : String) : Moves s (.started jobId) (s.enqueue [.setPinnedJobId (some jobId)])
  | selectTenant (next : String) : Moves s (.selectTenant next) (s.selectTenant next)
  | polled {i : ℕ} {fetch : Fetch} (jobs : List Job) (hl : s.poll.Live i fetch) :
    Moves s (.polled i (some jobs))
      { s.enqueue [.followJob jobs.head?] with poll := s.poll.modify i (.goTo .waiting) }
  | pollFails {i : ℕ} {fetch : Fetch} (hl : s.poll.Live i fetch) :
    Moves s (.polled i none) { s with poll := s.poll.modify i (.goTo .waiting) }
  | pollTimer {i : ℕ} {fetch : Fetch} (hl : s.poll.Live i fetch) :
    Moves s (.pollTimer i) { s with poll := s.poll.modify i (.goTo .asking) }
  /-- An answer to a run that is cancelled. -/
  | polledLate {i : ℕ} {run : Run Fetch} (jobs : Option (List Job)) (hrun : s.poll.runs[i]? = some run)
    (hc : run.cancelled = true) : Moves s (.polled i jobs) { s with poll := s.poll.modify i (.goTo .stopped) }
  | lookedUp {i : ℕ} {fetch : Fetch} (job : Job) (hl : s.lookup.Live i fetch) (hp : fetch.phase = .asking) :
    Moves s (.lookedUp i (some job))
      { s.enqueue [.setJob job] with lookup := s.lookup.modify i (.goTo (.resolved job)) }
  | lookupFails {i : ℕ} {fetch : Fetch} (hl : s.lookup.Live i fetch) (hp : fetch.phase = .asking) :
    Moves s (.lookedUp i none) { s with lookup := s.lookup.modify i (.goTo .waiting) }
  | lookupTimer {i : ℕ} {fetch : Fetch} (hl : s.lookup.Live i fetch) (hp : fetch.phase = .waiting) :
    Moves s (.lookupTimer i) { s with lookup := s.lookup.modify i (.goTo .asking) }
  | lookedUpLate {i : ℕ} {run : Run Fetch} (job : Option Job) (hrun : s.lookup.runs[i]? = some run)
    (hc : run.cancelled = true) : Moves s (.lookedUp i job) { s with lookup := s.lookup.modify i (.goTo .stopped) }
  | effects : Moves s .effects s.runEffects
  | render : Moves s .render s.render

variable {s s' : App} {a : AppAction}

theorem timed_live {run : Run Fetch} (h : timed run = true) : run.cancelled = false ∧ run.state.phase = .waiting := by
  obtain ⟨⟨arg, phase⟩, cancelled⟩ := run
  cases cancelled with
  | true => cases h
  | false =>
    cases phase with
    | waiting => exact ⟨rfl, rfl⟩
    | asking => cases h
    | resolved job => cases h
    | stopped => cases h

theorem asking_phase {run : Run Fetch} (h : asking run = true) : run.state.phase = .asking := by
  obtain ⟨⟨arg, phase⟩, cancelled⟩ := run
  cases phase with
  | asking => rfl
  | waiting => cases h
  | resolved job => cases h
  | stopped => cases h

theorem moves_of_step (hs : s.step a = some s') : s.Moves a s' := by
  cases a with
  | refreshed first => cases hs; exact .refreshed first
  | started jobId => cases hs; exact .started jobId
  | selectTenant next => cases hs; exact .selectTenant next
  | polled i jobs =>
    obtain ⟨⟨fetch, cancelled⟩, hrun, rfl⟩ := Option.map_eq_some_iff.mp hs
    obtain ⟨hrun, -⟩ := Option.filter_eq_some_iff.mp hrun
    cases cancelled with
    | true => exact .polledLate jobs hrun rfl
    | false =>
      cases jobs with
      | some jobs => exact .polled jobs hrun
      | none => exact .pollFails hrun
  | pollTimer i =>
    obtain ⟨⟨fetch, cancelled⟩, hrun, rfl⟩ := Option.map_eq_some_iff.mp hs
    obtain ⟨hrun, ht⟩ := Option.filter_eq_some_iff.mp hrun
    obtain ⟨rfl, -⟩ := timed_live ht
    exact .pollTimer hrun
  | lookedUp i job =>
    obtain ⟨⟨fetch, cancelled⟩, hrun, rfl⟩ := Option.map_eq_some_iff.mp hs
    obtain ⟨hrun, hasks⟩ := Option.filter_eq_some_iff.mp hrun
    cases cancelled with
    | true => exact .lookedUpLate job hrun rfl
    | false =>
      cases job with
      | some job => exact .lookedUp job hrun (asking_phase hasks)
      | none => exact .lookupFails hrun (asking_phase hasks)
  | lookupTimer i =>
    obtain ⟨⟨fetch, cancelled⟩, hrun, rfl⟩ := Option.map_eq_some_iff.mp hs
    obtain ⟨hrun, ht⟩ := Option.filter_eq_some_iff.mp hrun
    obtain ⟨rfl, hp⟩ := timed_live ht
    exact .lookupTimer hrun hp
  | effects => cases hs; exact .effects
  | render => cases hs; exact .render

/-! ## The tenant -/

/-- The tenant is on its way to the screen, or on it. -/
structure Selected (s : App) (next : String) (rendered : Prop) : Prop where
  pending : s.pending.tenantId = some next
  shown : rendered → s.shown.tenantId = some next

theorem Selected.step {next : String} {rendered : Prop} (h : s.Selected next rendered) (hm : s.Moves a s')
    (ha : ∀ other, a ≠ .selectTenant other) : s'.Selected next (rendered ∨ a = .render) := by
  have hsame {t : App} (hp : t.pending.tenantId = s.pending.tenantId) (ht : t.shown = s.shown) (hn : a ≠ .render) :
      t.Selected next (rendered ∨ a = .render) :=
    ⟨hp.trans h.pending, fun hr => (congrArg Shown.tenantId ht).trans (h.shown (hr.resolve_right hn))⟩
  have hqueue (update : Update) (hu : (update.apply s.pending).tenantId = s.pending.tenantId) :
      (s.enqueue [update]).pending.tenantId = s.pending.tenantId := by
    rw [pending_enqueue]
    exact hu
  cases hm with
  | refreshed first =>
    refine hsame (hqueue _ ?_) rfl AppAction.noConfusion
    show s.pending.tenantId.or first = _
    rw [h.pending]
    rfl
  | started jobId => exact hsame (hqueue _ rfl) rfl AppAction.noConfusion
  | selectTenant other => exact absurd rfl (ha other)
  | polled jobs hl => exact hsame (hqueue (.followJob jobs.head?) rfl) rfl AppAction.noConfusion
  | pollFails hl => exact hsame rfl rfl AppAction.noConfusion
  | pollTimer hl => exact hsame rfl rfl AppAction.noConfusion
  | polledLate jobs hrun hc => exact hsame rfl rfl AppAction.noConfusion
  | lookedUp job hl hp => exact hsame (hqueue (.setJob job) rfl) rfl AppAction.noConfusion
  | lookupFails hl hp => exact hsame rfl rfl AppAction.noConfusion
  | lookupTimer hl hp => exact hsame rfl rfl AppAction.noConfusion
  | lookedUpLate job hrun hc => exact hsame rfl rfl AppAction.noConfusion
  | effects => exact hsame rfl rfl AppAction.noConfusion
  | render => exact ⟨h.pending, fun _ => h.pending⟩

end App

/-- **Selection.** The tenant selected last is the one the page shows, once
that is rendered: no refresh, answer or pin moves it. -/
theorem selected_stays (before after : List AppAction) (next : String) (s : App)
    (hr : run App.step {} (before ++ .selectTenant next :: after) = some s)
    (hlast : ∀ other, .selectTenant other ∉ after) (hrender : .render ∈ after) : s.shown.tenantId = some next := by
  obtain ⟨s₁, s₂, -, hs, hafter⟩ := run_split hr
  cases hs
  have h : (∀ other, .selectTenant other ∉ after) → s.Selected next (.render ∈ after) := by
    refine run_keeps (I := fun after s => (∀ other, .selectTenant other ∉ after) → s.Selected next (.render ∈ after))
      ?_ ?_ hafter
    · refine fun _ => ⟨?_, fun hm => absurd hm List.not_mem_nil⟩
      show (s₁.enqueue _).pending.tenantId = some next
      rw [App.pending_enqueue]
      rfl
    · intro after t a t' ih hs hlast
      simp only [List.mem_append, not_or] at hlast
      have hstep := (ih fun other => (hlast other).1).step (App.moves_of_step hs) fun other he =>
        (hlast other).2 (he ▸ List.mem_cons_self)
      simpa [eq_comm] using hstep
  exact (h hlast).shown hrender

theorem selected_stays_refreshed :
    ∃ s, run App.step {} ([.effects, .refreshed (some "acme"), .render] ++
        .selectTenant "initech" :: [.render, .effects, .started explicitJob.jobId, .refreshed (some "acme"), .render]) = some s ∧
      s.shown.tenantId = some "initech" :=
  ⟨_, rfl, selected_stays [.effects, .refreshed (some "acme"), .render]
    [.render, .effects, .started explicitJob.jobId, .refreshed (some "acme"), .render] "initech" _ rfl (by simp) (by simp)⟩

/-! ## The newest job -/

/-- What an action answers poll `i` with. -/
def AppAction.answers (i : ℕ) : AppAction → Option (List Job)
  | polled j jobs => if j = i then jobs else none
  | refreshed _ | started _ | selectTenant _ | pollTimer _ | lookedUp _ _ | lookupTimer _ | effects | render => none

/-- The jobs that poll `i` was answered with last. -/
def lastPolled (i : ℕ) (history : List AppAction) : Option (List Job) := history.reverse.findSome? (AppAction.answers i)

theorem lastPolled_snoc (i : ℕ) (history : List AppAction) (a : AppAction) :
    lastPolled i (history ++ [a]) = (a.answers i).or (lastPolled i history) := by
  simp only [lastPolled, List.reverse_append, List.reverse_singleton, List.singleton_append, List.findSome?_cons]
  cases a.answers i with
  | none => rfl
  | some jobs => rfl

namespace App

/-- A live poll is of the selected tenant, and goes round its loop. -/
def PollLoops (deps : Option String × Option String) (fetch : Fetch) : Prop :=
  truthy deps.2 = none ∧ truthy deps.1 = some fetch.arg ∧ (fetch.phase = .asking ∨ fetch.phase = .waiting)

/-- A live lookup is of the pinned job, and goes round its loop until it is
answered. -/
def LookupLoops (pinnedJobId : Option String) (fetch : Fetch) : Prop :=
  truthy pinnedJobId = some fetch.arg ∧
    (fetch.phase = .asking ∨ fetch.phase = .waiting ∨ ∃ job, fetch.phase = .resolved job)

theorem loops_startPoll (deps : Option String × Option String) (fetch : Fetch) (h : startPoll deps = some fetch) :
    PollLoops deps fetch := by
  obtain ⟨tenantId, pinnedJobId⟩ := deps
  have hfits := fits_startPoll _ fetch h
  have hp : truthy pinnedJobId = none := hfits
  rw [startPoll, hp] at h
  obtain ⟨arg, harg, rfl⟩ := Option.map_eq_some_iff.mp h
  exact ⟨hfits, harg, .inl rfl⟩

theorem loops_startLookup (pinnedJobId : Option String) (fetch : Fetch) (h : startLookup pinnedJobId = some fetch) :
    LookupLoops pinnedJobId fetch :=
  ⟨(fits_startLookup pinnedJobId fetch h).1, .inl (fits_startLookup pinnedJobId fetch h).2⟩

/-- What is so in every state, of the polls answered in the history. -/
structure Looping (history : List AppAction) (s : App) : Prop where
  follows : s.Follows
  poll : s.poll.Lawful PollLoops
  pollStarted : s.poll.Started startPoll
  lookup : s.lookup.Lawful LookupLoops
  lookupStarted : s.lookup.Started startLookup
  /-- Only runs are answered. -/
  known : ∀ i, (lastPolled i history).isSome → i < s.poll.runs.length
  /-- What the live poll was answered with last is on its way to the screen. -/
  newest : ∀ i fetch jobs, s.poll.Live i fetch → lastPolled i history = some jobs →
    s.pending.job.map Job.jobId = jobs.head?.map Job.jobId

variable {s s' : App} {a : AppAction} {history : List AppAction}

/-- A step that leaves the polls alone, and the job that is pending. -/
theorem Looping.aside (h : Looping history s) (hf : s'.Follows) (hp : s'.poll = s.poll)
    (hjob : s'.pending.job = s.pending.job) (hl : s'.lookup.Lawful LookupLoops) (hs : s'.lookup.Started startLookup)
    (ha : ∀ i, a.answers i = none) : Looping (history ++ [a]) s' := by
  have hlast (i : ℕ) : lastPolled i (history ++ [a]) = lastPolled i history := by
    rw [lastPolled_snoc, ha i]
    rfl
  refine ⟨hf, hp ▸ h.poll, hp ▸ h.pollStarted, hl, hs, fun i hi => ?_, fun i fetch jobs hlive hi => ?_⟩
  · rw [hp]
    exact h.known i (hlast i ▸ hi)
  · rw [hp] at hlive
    rw [hjob]
    exact h.newest i fetch jobs hlive (hlast i ▸ hi)

/-- A poll that goes on without an answer. -/
theorem Looping.pollOn (h : Looping history s) {i : ℕ} {phase : FetchPhase} (hf : Follows { s with
      poll := s.poll.modify i (.goTo phase) }) (hphase : phase = .asking ∨ phase = .waiting)
    (ha : ∀ j, a.answers j = none) : Looping (history ++ [a]) { s with poll := s.poll.modify i (.goTo phase) } := by
  have hlast (j : ℕ) : lastPolled j (history ++ [a]) = lastPolled j history := by
    rw [lastPolled_snoc, ha j]
    rfl
  refine ⟨hf, Effect.lawful_modify h.poll i fun _ _ hl => ⟨hl.1, hl.2.1, hphase⟩,
    Effect.started_modify h.pollStarted i _, h.lookup, h.lookupStarted, fun j hj => ?_, fun j fetch jobs hlive hj => ?_⟩
  · rw [Effect.length_modify]
    exact h.known j (hlast j ▸ hj)
  · obtain ⟨before, hbefore, -⟩ := Effect.live_modify.mp hlive
    exact h.newest j before jobs hbefore (hlast j ▸ hj)

/-- The live poll's answer. -/
theorem Looping.polled (h : Looping history s) {i : ℕ} {fetch : Fetch} (jobs : List Job) (hl : s.poll.Live i fetch)
    (hf : Follows { s.enqueue [.followJob jobs.head?] with poll := s.poll.modify i (.goTo .waiting) }) :
    Looping (history ++ [.polled i (some jobs)])
      { s.enqueue [.followJob jobs.head?] with poll := s.poll.modify i (.goTo .waiting) } := by
  refine ⟨hf, Effect.lawful_modify h.poll i fun _ _ hl => ⟨hl.1, hl.2.1, .inr rfl⟩,
    Effect.started_modify h.pollStarted i _, h.lookup, h.lookupStarted, fun j hj => ?_, fun j fetch' jobs' hlive hj => ?_⟩
  · rw [Effect.length_modify]
    rw [lastPolled_snoc, AppAction.answers] at hj
    by_cases hij : i = j
    · exact hij ▸ (List.getElem?_eq_some_iff.mp hl).1
    · rw [if_neg hij] at hj
      exact h.known j hj
  · obtain ⟨before, hbefore, -⟩ := Effect.live_modify.mp hlive
    obtain ⟨rfl, -⟩ := h.poll.unique hl hbefore
    rw [lastPolled_snoc, AppAction.answers, if_pos rfl] at hj
    cases hj
    show (s.enqueue [.followJob jobs.head?]).pending.job.map Job.jobId = _
    rw [pending_enqueue]
    show (if _ then _ else _ : Option Job).map Job.jobId = _
    split
    · assumption
    · rfl

/-- The answer to a poll that is cancelled. -/
theorem Looping.polledLate (h : Looping history s) {i : ℕ} {run : Run Fetch} (jobs : Option (List Job))
    (hrun : s.poll.runs[i]? = some run) (hc : run.cancelled = true)
    (hf : Follows { s with poll := s.poll.modify i (.goTo .stopped) }) :
    Looping (history ++ [.polled i jobs]) { s with poll := s.poll.modify i (.goTo .stopped) } := by
  refine ⟨hf, Effect.lawful_modify_cancelled h.poll _ hrun hc, Effect.started_modify h.pollStarted i _, h.lookup,
    h.lookupStarted, fun j hj => ?_, fun j fetch jobs' hlive hj => ?_⟩
  · rw [Effect.length_modify]
    rw [lastPolled_snoc, AppAction.answers] at hj
    by_cases hij : i = j
    · exact hij ▸ (List.getElem?_eq_some_iff.mp hrun).1
    · rw [if_neg hij] at hj
      exact h.known j hj
  · have hlive := (Effect.live_modify_cancelled hrun hc).mp hlive
    have hij : i ≠ j := by
      rintro rfl
      cases hrun.symm.trans hlive
      cases hc
    rw [lastPolled_snoc, AppAction.answers, if_neg hij] at hj
    exact h.newest j fetch jobs' hlive hj

theorem Looping.runEffects (h : Looping history s) {a : AppAction} (ha : ∀ i, a.answers i = none) :
    Looping (history ++ [a]) s.runEffects := by
  have hlast (i : ℕ) : lastPolled i (history ++ [a]) = lastPolled i history := by
    rw [lastPolled_snoc, ha i]
    rfl
  refine ⟨h.follows.runEffects, Effect.lawful_sync h.poll loops_startPoll _, Effect.started_sync h.pollStarted _,
    Effect.lawful_sync h.lookup loops_startLookup _, Effect.started_sync h.lookupStarted _, fun i hi => ?_,
    fun i fetch jobs hlive hi => ?_⟩
  · exact (h.known i (hlast i ▸ hi)).trans_le (Effect.length_le_sync _ _)
  · rw [hlast i] at hi
    rcases Effect.live_sync h.poll hlive with ⟨-, hlive⟩ | ⟨-, rfl, -⟩
    · exact h.newest i fetch jobs hlive hi
    · exact absurd (h.known _ (Option.isSome_iff_exists.mpr ⟨jobs, hi⟩)) (Nat.lt_irrefl _)

theorem looping_step (h : Looping history s) (hs : s.step a = some s') : Looping (history ++ [a]) s' := by
  have hf : s'.Follows := follows_step h.follows hs
  have hmoves := moves_of_step hs
  have haside (updates : List Update) (hjob : (updates.foldl Update.apply s.pending).job = s.pending.job)
      (hf : (s.enqueue updates).Follows) (ha : ∀ i, a.answers i = none) : Looping (history ++ [a]) (s.enqueue updates) :=
    h.aside hf rfl (by rw [pending_enqueue, hjob]) h.lookup h.lookupStarted ha
  cases hmoves with
  | refreshed first => exact haside _ rfl hf fun _ => rfl
  | started jobId => exact haside _ rfl hf fun _ => rfl
  | selectTenant next => exact haside _ rfl hf fun _ => rfl
  | polled jobs hl => exact h.polled jobs hl hf
  | @pollFails i fetch hl =>
    refine h.pollOn hf (.inr rfl) fun j => ?_
    rw [AppAction.answers]
    split
    · rfl
    · rfl
  | pollTimer hl => exact h.pollOn hf (.inl rfl) fun _ => rfl
  | polledLate jobs hrun hc => exact h.polledLate jobs hrun hc hf
  | @lookedUp i fetch job hl hp =>
    refine ⟨hf, h.poll, h.pollStarted, Effect.lawful_modify h.lookup i fun _ _ hl => ⟨hl.1, .inr (.inr ⟨job, rfl⟩)⟩,
      Effect.started_modify h.lookupStarted i _, fun j hj => ?_, fun j fetch' _ hlive _ => ?_⟩
    · exact h.known j (by simpa [lastPolled_snoc, AppAction.answers] using hj)
    · exact (h.follows.no_poll hlive hl).elim
  | @lookupFails i fetch hl hp =>
    exact h.aside hf rfl rfl (Effect.lawful_modify h.lookup i fun _ _ hl => ⟨hl.1, .inr (.inl rfl)⟩)
      (Effect.started_modify h.lookupStarted i _) fun _ => rfl
  | @lookupTimer i fetch hl hp =>
    exact h.aside hf rfl rfl (Effect.lawful_modify h.lookup i fun _ _ hl => ⟨hl.1, .inl rfl⟩)
      (Effect.started_modify h.lookupStarted i _) fun _ => rfl
  | @lookedUpLate i run job hrun hc =>
    exact h.aside hf rfl rfl (Effect.lawful_modify_cancelled h.lookup _ hrun hc)
      (Effect.started_modify h.lookupStarted i _) fun _ => rfl
  | effects => exact h.runEffects fun _ => rfl
  | render =>
    have he := h.runEffects (a := .render) fun _ => rfl
    exact ⟨hf, he.poll, he.pollStarted, he.lookup, he.lookupStarted, he.known, he.newest⟩

theorem run_looping (hr : run step {} history = some s) : Looping history s := by
  refine run_keeps (I := Looping) ?_ (fun _ _ _ _ h hs => looping_step h hs) hr
  have hfollows : ({} : App).Follows := run_follows (show run step {} [] = some {} from rfl)
  exact ⟨hfollows, Effect.lawful_empty, Effect.started_empty _, Effect.lawful_empty,
    Effect.started_empty _, fun i hi => absurd hi Bool.false_ne_true, fun i fetch _ hl => absurd hl Effect.not_live_empty⟩

/-- The effects have run for what is shown, and it is all rendered. -/
structure Settled (s : App) : Prop where
  effects : s.poll.deps = some (s.shown.tenantId, s.shown.pinnedJobId)
  rendered : s.queue = []

end App

/-- **Following.** Where a poll is live, the effects have run for what is shown
and everything is rendered, the poll is of the tenant on the page, with nothing
pinned, and the page shows the newest of the jobs that it was answered with
last: no poll of an earlier tenant and no lookup of an earlier pin has come
between. -/
theorem follows_last (history : List AppAction) (s : App) (i : ℕ) (fetch : Fetch) (jobs : List Job)
    (hr : run App.step {} history = some s) (hs : s.Settled) (hl : s.poll.Live i fetch)
    (hj : lastPolled i history = some jobs) :
    s.shown.tenantId = some fetch.arg ∧ truthy s.shown.pinnedJobId = none ∧
      s.shown.job.map Job.jobId = jobs.head?.map Job.jobId := by
  have h := App.run_looping hr
  obtain ⟨-, deps, hd, hnone, harg, -⟩ := h.poll i fetch hl
  cases hs.effects.symm.trans hd
  have hjob := h.newest i fetch jobs hl hj
  rw [App.pending, hs.rendered] at hjob
  exact ⟨(Option.filter_eq_some_iff.mp harg).1, hnone, hjob⟩

/-- **Loops.** With a tenant selected and nothing pinned, one poll is live, of
that tenant, and can always go on: it waits for its answer or for its timer.
With a job pinned, one lookup is, of that job, until it has been answered. -/
theorem loops_alive (history : List AppAction) (s : App) (hr : run App.step {} history = some s)
    (hs : s.poll.deps = some (s.shown.tenantId, s.shown.pinnedJobId)) :
    (∀ tenantId, truthy s.shown.tenantId = some tenantId → truthy s.shown.pinnedJobId = none →
      ∃ i fetch, s.poll.Live i fetch ∧ (∀ j fetch', s.poll.Live j fetch' → j = i) ∧ fetch.arg = tenantId ∧
        ((∀ jobs, (s.step (.polled i jobs)).isSome) ∨ (s.step (.pollTimer i)).isSome)) ∧
    (∀ jobId, truthy s.shown.pinnedJobId = some jobId →
      ∃ i fetch, s.lookup.Live i fetch ∧ (∀ j fetch', s.lookup.Live j fetch' → j = i) ∧ fetch.arg = jobId ∧
        ((∀ job, (s.step (.lookedUp i job)).isSome) ∨ (s.step (.lookupTimer i)).isSome ∨
          ∃ job, fetch.phase = .resolved job)) := by
  have h := App.run_looping hr
  constructor
  · intro tenantId ht hp
    have hstart : startPoll (s.shown.tenantId, s.shown.pinnedJobId) = some { arg := tenantId } := by
      rw [startPoll, hp, ht]
      rfl
    obtain ⟨i, fetch, hl⟩ := h.pollStarted _ _ hs hstart
    have hrun : s.poll.runs[i]? = some { state := fetch } := hl
    obtain ⟨-, deps, hd, -, harg, hphase⟩ := h.poll i fetch hl
    cases hs.symm.trans hd
    refine ⟨i, fetch, hl, fun j fetch' hl' => (h.poll.unique hl' hl).1, Option.some.inj (harg.symm.trans ht), ?_⟩
    rcases hphase with hphase | hphase
    · left
      intro jobs
      simp [App.step, hrun, App.asking, hphase]
    · right
      simp [App.step, hrun, App.timed, hphase]
  · intro jobId hp
    have hd : s.lookup.deps = some s.shown.pinnedJobId := by
      rw [← h.follows.deps, hs]
      rfl
    have hstart : startLookup s.shown.pinnedJobId = some { arg := jobId } := by
      rw [startLookup, hp]
      rfl
    obtain ⟨i, fetch, hl⟩ := h.lookupStarted _ _ hd hstart
    have hrun : s.lookup.runs[i]? = some { state := fetch } := hl
    obtain ⟨-, deps, hd', harg, hphase⟩ := h.lookup i fetch hl
    cases hd.symm.trans hd'
    refine ⟨i, fetch, hl, fun j fetch' hl' => (h.lookup.unique hl' hl).1, Option.some.inj (harg.symm.trans hp), ?_⟩
    rcases hphase with hphase | hphase | hphase
    · left
      intro job
      simp [App.step, hrun, App.asking, hphase]
    · right; left
      simp [App.step, hrun, App.timed, hphase]
    · exact .inr (.inr hphase)

/-- A selection, and the answer of the first tenant's poll after it. -/
def selects : List AppAction :=
  [.effects, .refreshed (some "acme"), .render, .effects, .selectTenant "initech", .render, .effects,
    .polled 1 (some [newerJob, explicitJob]), .polled 0 (some [explicitJob]), .render]

theorem follows_last_late :
    ∃ s, run App.step {} selects = some s ∧ s.shown.job.map Job.jobId = some newerJob.jobId :=
  ⟨_, rfl, (follows_last selects _ 1 ⟨"initech", .waiting⟩ [newerJob, explicitJob] rfl ⟨rfl, rfl⟩ rfl rfl).2.2⟩

theorem loops_alive_selected :
    ∃ s, run App.step {} selects = some s ∧ ∃ i fetch, s.poll.Live i fetch ∧ fetch.arg = "initech" := by
  refine ⟨_, rfl, ?_⟩
  obtain ⟨i, fetch, hl, -, harg, -⟩ := (loops_alive selects _ rfl rfl).1 "initech" rfl rfl
  exact ⟨i, fetch, hl, harg⟩

end ControlPlane
