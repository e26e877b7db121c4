import ControlPlane.Lib.Program
import ControlPlane.Workflows.JobRun

/-!
# The polled state of a session

`get_job_state` of `app/api/routes/jobs.py`, which asks Temporal for the
job's workflow two times: what it is, and then what it waits for, if it was
running, or what it returned, if it was complete. The workflow goes on and
closes, and workers come and go, between the two.

`getJobState_returns_iff`: the first call's failure is caught, the second's
is not. So the state is returned exactly if the workflow was not running any
more, or still runs at the second call and has a worker that answers.
-/

namespace ControlPlane

open Effect Effect.Prog

/-! ## Temporal's handle of a workflow -/

/-- `WorkflowExecutionStatus`. -/
inductive ExecutionStatus
  | running
  | completed
  | failed
  | canceled
  | terminated
  | continuedAsNew
  | timedOut
  deriving DecidableEq

def ExecutionStatus.name : ExecutionStatus → String
  | running => "RUNNING"
  | completed => "COMPLETED"
  | failed => "FAILED"
  | canceled => "CANCELED"
  | terminated => "TERMINATED"
  | continuedAsNew => "CONTINUED_AS_NEW"
  | timedOut => "TIMED_OUT"

/-- What `workflow_execution_info` has of the worker's version and of sizes. -/
structure ExecutionInfo where
  deploymentName : String
  buildId : String
  historySizeBytes : ℤ
  externalPayloadSizeBytes : ℤ
  externalPayloadCount : ℤ

structure Description where
  status : Option ExecutionStatus
  info : ExecutionInfo

/-- The exceptions of a handle's calls, and FastAPI's. -/
inductive RequestError
  | rpcError
  | workflowFailureError
  | httpException (statusCode : ℕ) (detail : String)

inductive HandleOp
  | describe
  /-- The query `pending_approval`. -/
  | pendingApproval
  | result

/-- A call returns, or raises what its caller may catch. -/
def HandleSig : Sig := ⟨HandleOp, fun
  | .describe => Except RequestError Description
  | .pendingApproval => Except RequestError (Option PendingApproval)
  | .result => Except RequestError JobOutcome⟩

/-! ## The route -/

structure SessionState where
  jobId : String
  status : String
  workerVersion : Option String := none
  pendingApproval : Option PendingApproval := none
  historySizeBytes : Option ℤ := none
  externalPayloadSizeBytes : Option ℤ := none
  externalPayloadCount : Option ℤ := none
  result : Option String := none

def unknownJob (jobId : String) : RequestError := .httpException 404 ("unknown job " ++ pyRepr jobId)

/-- `f"{version.deployment_name}:{version.build_id}"`, of a version that has a build id. -/
def ExecutionInfo.workerVersion (info : ExecutionInfo) : Option String :=
  if info.buildId = "" then none else some (info.deploymentName ++ ":" ++ info.buildId)

def Description.state (desc : Description) (jobId : String) (pending : Option PendingApproval) (result : Option String) :
    SessionState where
  result := result
  jobId := jobId
  status := (desc.status.map ExecutionStatus.name).getD "UNKNOWN"
  workerVersion := desc.info.workerVersion
  pendingApproval := pending
  historySizeBytes := some desc.info.historySizeBytes
  externalPayloadSizeBytes := some desc.info.externalPayloadSizeBytes
  externalPayloadCount := some desc.info.externalPayloadCount

/-- What follows `describe`. -/
def describedState (jobId : String) : Except RequestError Description → Prog HandleSig RequestError SessionState
  | .error .rpcError => fail (unknownJob jobId)
  | .error e => fail e
  | .ok desc => do
    let pending ← if desc.status = some .running then do ofExcept (← op (S := HandleSig) .pendingApproval) else pure none
    let result ← if desc.status = some .completed then do
        let outcome ← ofExcept (← op (S := HandleSig) .result)
        pure (some outcome.output)
      else pure none
    return desc.state jobId pending result

def getJobState (jobId : String) : Prog HandleSig RequestError SessionState := do
  describedState jobId (← op (S := HandleSig) .describe)

/-! ## Workflows that run and close -/

/-- How an execution closed. -/
inductive Ending
  | completed (outcome : JobOutcome)
  | failed
  | canceled
  | terminated
  | continuedAsNew
  | timedOut

inductive Execution
  | running (pending : Option PendingApproval)
  | closed (ending : Ending)

def Execution.status : Execution → ExecutionStatus
  | running _ => .running
  | closed (.completed _) => .completed
  | closed .failed => .failed
  | closed .canceled => .canceled
  | closed .terminated => .terminated
  | closed .continuedAsNew => .continuedAsNew
  | closed .timedOut => .timedOut

/-- The execution under the job's id, if there is one, and whether a worker is up. -/
structure Cluster where
  execution : Option Execution
  info : ExecutionInfo
  worker : Bool

/-- What happens between two calls. -/
inductive Move
  /-- A running workflow goes on. -/
  | progress (pending : Option PendingApproval) (info : ExecutionInfo)
  | close (ending : Ending) (info : ExecutionInfo)
  | worker (up : Bool)

def Cluster.Running (w : Cluster) : Prop := w.execution.map Execution.status = some .running

instance (w : Cluster) : Decidable w.Running := inferInstanceAs (Decidable (_ = _))

def Cluster.move (m : Move) (w : Cluster) : Cluster :=
  match m with
  | .progress pending info => if w.Running then { w with execution := some (.running pending), info } else w
  | .close ending info => if w.Running then { w with execution := some (.closed ending), info } else w
  | .worker up => { w with worker := up }

def Cluster.moves (ms : List Move) (w : Cluster) : Cluster := ms.foldl (fun w m => w.move m) w

/-- What a query is answered: only a running workflow with a worker has an answer. -/
def Cluster.query (w : Cluster) : Except RequestError (Option PendingApproval) :=
  match w.execution with
  | some (.running pending) => if w.worker then .ok pending else .error .rpcError
  | some (.closed _) => .error .rpcError
  | none => .error .rpcError

/-- What `result()` gives of a closed workflow. A running one it would wait
for, until the call's deadline. -/
def Cluster.result (w : Cluster) : Except RequestError JobOutcome :=
  match w.execution with
  | some (.closed (.completed outcome)) => .ok outcome
  | some (.closed _) => .error .workflowFailureError
  | some (.running _) => .error .rpcError
  | none => .error .rpcError

def Cluster.describe (w : Cluster) : Except RequestError Description :=
  match w.execution with
  | some execution => .ok ⟨some execution.status, w.info⟩
  | none => .error .rpcError

def handle : Handler HandleSig RequestError Unit Cluster
  | .describe, _, w => .ok (w.describe, w)
  | .pendingApproval, _, w => .ok (w.query, w)
  | .result, _, w => .ok (w.result, w)

/-- What the route does, with moves before its first call and before its second. -/
def requested (jobId : String) (before between : List Move) (w : Cluster) : Outcome RequestError SessionState :=
  (run (handle.amid Cluster.move) (getJobState jobId) [(before, ()), (between, ())] w).1

/-! ## What is returned -/

/-- There is a result exactly of a completed run, and a pending approval only
of a running one. -/
structure Snapshot (s : SessionState) : Prop where
  result : s.result.isSome ↔ s.status = "COMPLETED"
  pending : s.pendingApproval.isSome → s.status = "RUNNING"

section

variable {w : Cluster} {e : Execution} {jobId : String} {before between : List Move}

theorem moves_execution (h : w.execution.isSome) (ms : List Move) : (w.moves ms).execution.isSome := by
  induction ms generalizing w with
  | nil => exact h
  | cons m ms ih =>
    refine ih (w := w.move m) ?_
    cases m with
    | worker up => exact h
    | _ =>
      simp only [Cluster.move]
      split
      · rfl
      · exact h

/-- A closed workflow stays as it closed. -/
theorem moves_closed (h : ¬ w.Running) (ms : List Move) : (w.moves ms).execution = w.execution := by
  induction ms generalizing w with
  | nil => rfl
  | cons m ms ih =>
    have hm : (w.move m).execution = w.execution := by
      cases m with
      | worker up => rfl
      | _ => simp only [Cluster.move, if_neg h]
    have hclosed : ¬ (w.move m).Running := by rwa [Cluster.Running, hm]
    exact (ih hclosed).trans hm

theorem query_ok_iff : (∃ pending, w.query = .ok pending) ↔ w.Running ∧ w.worker = true := by
  unfold Cluster.query Cluster.Running
  cases w.execution with
  | none => simp
  | some e =>
    cases e with
    | closed ending => cases ending <;> simp [Execution.status]
    | running pending => cases w.worker <;> simp [Execution.status]

/-- After the first call, the state is what that call found, and what the
second finds then. -/
theorem requested_eq (he : (w.moves before).execution = some e) : requested jobId before between w =
    (run (handle.amid Cluster.move) (describedState jobId (.ok ⟨some e.status, (w.moves before).info⟩)) [(between, ())]
      (w.moves before)).1 := by
  have hdescribe : handle.amid Cluster.move .describe (before, ()) w =
      .ok (.ok ⟨some e.status, (w.moves before).info⟩, w.moves before) := by
    show Except.ok ((w.moves before).describe, w.moves before) = _
    rw [Cluster.describe, he]
    rfl
  exact congrArg Prod.fst (run_answered (h := handle.amid Cluster.move) (o := .describe) (k := describedState jobId) hdescribe)

theorem requested_running {pending : Option PendingApproval} (he : (w.moves before).execution = some (.running pending)) :
    requested jobId before between w = match ((w.moves before).moves between).query with
      | .ok pending => .returned (Description.state ⟨some .running, (w.moves before).info⟩ jobId pending none)
      | .error e => .raised e := by
  have hquery : handle.amid Cluster.move .pendingApproval (between, ()) (w.moves before) =
      .ok (((w.moves before).moves between).query, (w.moves before).moves between) := rfl
  rw [requested_eq he, Execution.status]
  refine (congrArg Prod.fst (run_answered (h := handle.amid Cluster.move) (o := .pendingApproval)
    (k := fun ans => do
      let pending ← ofExcept ans
      return Description.state ⟨some .running, (w.moves before).info⟩ jobId pending none) hquery)).trans ?_
  cases ((w.moves before).moves between).query <;> rfl

theorem requested_completed {outcome : JobOutcome} (he : (w.moves before).execution = some (.closed (.completed outcome))) :
    requested jobId before between w =
      .returned (Description.state ⟨some .completed, (w.moves before).info⟩ jobId none (some outcome.output)) := by
  have hclosed : ¬ (w.moves before).Running := by simp [Cluster.Running, he, Execution.status]
  have hresult : handle.amid Cluster.move .result (between, ()) (w.moves before) =
      .ok (.ok outcome, (w.moves before).moves between) := by
    show Except.ok (((w.moves before).moves between).result, (w.moves before).moves between) = _
    rw [Cluster.result, moves_closed hclosed, he]
    rfl
  rw [requested_eq he, Execution.status]
  exact congrArg Prod.fst (run_answered (h := handle.amid Cluster.move) (o := .result)
    (k := fun ans => do
      let outcome ← ofExcept ans
      return Description.state ⟨some .completed, (w.moves before).info⟩ jobId none (some outcome.output)) hresult)

/-- A run that closed in another way is asked no more. -/
theorem requested_closed {status : ExecutionStatus} (he : (w.moves before).execution = some e) (hs : e.status = status)
    (hrunning : status ≠ .running) (hcompleted : status ≠ .completed) :
    requested jobId before between w = .returned (Description.state ⟨some status, (w.moves before).info⟩ jobId none none) := by
  have hprog : describedState jobId (.ok ⟨some status, (w.moves before).info⟩) =
      done (Description.state ⟨some status, (w.moves before).info⟩ jobId none none) := by
    cases status with
    | running => exact absurd rfl hrunning
    | completed => exact absurd rfl hcompleted
    | _ => rfl
  rw [requested_eq he, hs, hprog]
  rfl

/-- For every existing job, and whatever happens before the route's calls and
between them, it returns such a state exactly if its first call finds the
workflow not running, or its second still running, and with a worker. -/
theorem getJobState_returns_iff (jobId : String) (w : Cluster) (existing : w.execution.isSome) (before between : List Move) :
    (∃ s, requested jobId before between w = .returned s ∧ Snapshot s) ↔
      ¬ (w.moves before).Running ∨ ((w.moves before).moves between).Running ∧ ((w.moves before).moves between).worker = true := by
  obtain ⟨e, he⟩ := Option.isSome_iff_exists.mp (moves_execution existing before)
  have hrunning : (w.moves before).Running ↔ e.status = .running := by simp [Cluster.Running, he]
  rw [hrunning]
  cases e with
  | running pending =>
    rw [requested_running he, ← query_ok_iff]
    have hno : ¬ ¬ (Execution.running pending).status = .running := not_not.mpr rfl
    rw [or_iff_right hno]
    constructor
    · rintro ⟨s, hs, -⟩
      cases hq : ((w.moves before).moves between).query with
      | error e =>
        rw [hq] at hs
        cases hs
      | ok found => exact ⟨found, rfl⟩
    · rintro ⟨found, hq⟩
      rw [hq]
      exact ⟨_, rfl, ⟨by simp [Description.state, ExecutionStatus.name], fun _ => rfl⟩⟩
  | closed ending =>
    have hnot : ¬ (Execution.closed ending).status = .running := by cases ending <;> exact fun h => by cases h
    refine iff_of_true ?_ (.inl hnot)
    cases ending with
    | completed outcome =>
      exact ⟨_, requested_completed he, ⟨by simp [Description.state, ExecutionStatus.name], fun h => by cases h⟩⟩
    | _ =>
      exact ⟨_, requested_closed he rfl (fun h => by cases h) (fun h => by cases h),
        ⟨by simp [Description.state, Execution.status, ExecutionStatus.name], fun h => by cases h⟩⟩

end

/-! ## A workflow that closes in between -/

def stateInfo : ExecutionInfo := ⟨"agent-control-plane", "v7", 115522, 0, 0⟩

def runningCluster : Cluster := ⟨some (.running none), stateInfo, true⟩

def triageOutcome : JobOutcome := ⟨"job-1", "incident-triage", 1, "end_turn", "Roll back checkout-api v412."⟩

/-- The workflow closes before the first call. -/
theorem getJobState_returns_iff_completed :
    (∃ s, requested "job-1" [.close (.completed triageOutcome) stateInfo] [] runningCluster = .returned s ∧ Snapshot s) ↔
      ¬ (runningCluster.moves [.close (.completed triageOutcome) stateInfo]).Running ∨
        ((runningCluster.moves [.close (.completed triageOutcome) stateInfo]).moves []).Running ∧
          ((runningCluster.moves [.close (.completed triageOutcome) stateInfo]).moves []).worker = true :=
  getJobState_returns_iff "job-1" runningCluster rfl [.close (.completed triageOutcome) stateInfo] []

/-- The workflow closes between the two calls, or its worker goes: the request fails. -/
theorem getJobState_raises :
    requested "job-1" [] [.close (.completed triageOutcome) stateInfo] runningCluster = .raised .rpcError ∧
      requested "job-1" [] [.worker false] runningCluster = .raised .rpcError ∧
        ¬ ∀ jobId (w : Cluster), w.execution.isSome → ∀ before between,
          ∃ s, requested jobId before between w = .returned s ∧ Snapshot s := by
  refine ⟨rfl, rfl, fun h => ?_⟩
  obtain ⟨s, hs, -⟩ := h "job-1" runningCluster rfl [] [.worker false]
  cases hs

end ControlPlane
