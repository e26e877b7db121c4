import ControlPlane.Lib.Token
import ControlPlane.Python

/-!
# Routing control

`app/registry/deployment.py` and what `app/demo.py` and the API's routes make
of it: which version takes new sessions, and the percentage of them that a ramp
diverts. Each change describes the deployment first and carries its conflict
token; a ramp to 100% or more is two changes. The message's percentage is a
32-bit float, so what is asked for is the request's percentage rounded to one.
What a change does to the deployment is the server's (`apply`).

`ramps_serial`: whatever other operators do at the same time, a request changes
the routing as it was described to it, and does no more than its calls, in
order; no ramp is asked for that is not within [0, 100]. One of 100% is, where a
smaller percentage is rounded up to it.
-/

namespace ControlPlane

open Effect Token
open Binary64 (Double)

structure RoutingStatus where
  currentVersion : String
  rampingVersion : String
  rampingPercentage : PyFloat

/-- The deployment's RPCs that change it, with the percentage that is sent. -/
inductive RoutingCall
  | setCurrentVersion (buildId : String)
  | setRampingVersion (buildId : String) (percentage : PyFloat)
  deriving DecidableEq

abbrev Routing (α : Type) := Prog (CellSig RoutingStatus RoutingCall) Raised α

/-- `n <= x` -/
def atLeast (n : ℤ) (x : PyFloat) : Bool :=
  match (floatValue x).cmp (.fin n) with
  | some .gt => true
  | some .eq => true
  | some .lt => false
  | none => false

/-- `x <= n` -/
def atMost (n : ℤ) (x : PyFloat) : Bool :=
  match (floatValue x).cmp (.fin n) with
  | some .lt => true
  | some .eq => true
  | some .gt => false
  | none => false

theorem atLeast_fin {n : ℤ} {d : Double} : atLeast n (.fin d) = true ↔ n ≤ d.val := by
  rw [← compare_ge_iff_ge, atLeast, floatValue, Ext.map, Ext.cmp]
  cases compare d.val n <;> simp

theorem atMost_fin {n : ℤ} {d : Double} : atMost n (.fin d) = true ↔ d.val ≤ n := by
  rw [← compare_le_iff_le, atMost, floatValue, Ext.map, Ext.cmp]
  cases compare d.val n <;> simp

def zeroPercent : PyFloat := .fin (.ofInt 0 (by decide))

/-- What a message's 32-bit field holds of a float. -/
def float32 : PyFloat → PyFloat
  | .fin d => (d.single?.map .fin).getD (.inf (d.val < 0))
  | x => x

/-- A percentage stays one; 100% may be one that was less. -/
theorem float32_within {x : PyFloat} (hlo : atLeast 0 x = true) (hhi : atMost 100 x = true) :
    atLeast 0 (float32 x) = true ∧ atMost 100 (float32 x) = true := by
  cases x with
  | fin d =>
    obtain ⟨s, hs, hslo, hshi⟩ := Double.single_between (by decide) (by decide) (atLeast_fin.mp hlo) (atMost_fin.mp hhi)
    rw [float32, hs]
    exact ⟨atLeast_fin.mpr hslo, atMost_fin.mpr hshi⟩
  | inf neg =>
    cases neg with
    | false => cases hhi
    | true => cases hlo
  | nan => cases hlo

example : (Binary64.nearest? (9999999999999999 / 10 ^ 14)).map (fun d => atLeast 100 (.fin d)) = some false ∧
    (Binary64.nearest? (9999999999999999 / 10 ^ 14)).map (fun d => atLeast 100 (float32 (.fin d))) = some true := by
  decide +kernel

namespace Deployment

def routingStatus : Routing RoutingStatus := do
  return (← describe).1

def setCurrentVersion (buildId : String) : Routing Unit := transaction (.setCurrentVersion buildId)

def setRamp (buildId : String) (percentage : PyFloat) : Routing Unit := do
  if !(atLeast 0 percentage && atMost 100 percentage) then
    Prog.fail (.valueError ("percentage must be in [0, 100], got " ++ floatStr percentage))
  else
    transaction (.setRampingVersion buildId (float32 percentage))

def clearRamp : Routing Unit := transaction (.setRampingVersion "" (float32 zeroPercent))

end Deployment

namespace Demo

def rampStatus : Routing RoutingStatus := Deployment.routingStatus

def setRamp (buildId : String) (percentage : PyFloat) : Routing Unit := do
  if atLeast 100 percentage then
    Deployment.setCurrentVersion buildId
    Deployment.clearRamp
  else
    Deployment.setRamp buildId percentage

def clearRamp : Routing Unit := Deployment.clearRamp

end Demo

/-- The API's routes; each answers with the status. -/
inductive RampRequest
  | getRamp
  | ramp (buildId : String) (percentage : PyFloat)
  | clearRamp

namespace RampRequest

def prog : RampRequest → Routing RoutingStatus
  | getRamp => Demo.rampStatus
  | ramp buildId percentage => do
    Demo.setRamp buildId percentage
    Demo.rampStatus
  | clearRamp => do
    Demo.clearRamp
    Demo.rampStatus

/-- The calls it comes to. -/
def calls : RampRequest → List RoutingCall
  | getRamp => []
  | ramp buildId percentage =>
    if atLeast 100 percentage then [.setCurrentVersion buildId, .setRampingVersion "" (float32 zeroPercent)]
    else if atLeast 0 percentage && atMost 100 percentage then [.setRampingVersion buildId (float32 percentage)]
    else []
  | clearRamp => [.setRampingVersion "" (float32 zeroPercent)]

/-- No call asks for a ramp of more than 100%, or of no number. -/
theorem ramp_within {request : RampRequest} {buildId : String} {percentage : PyFloat}
    (h : .setRampingVersion buildId percentage ∈ request.calls) :
    atLeast 0 percentage = true ∧ atMost 100 percentage = true := by
  have hzero : atLeast 0 (float32 zeroPercent) = true ∧ atMost 100 (float32 zeroPercent) = true :=
    float32_within (by decide +kernel) (by decide +kernel)
  cases request with
  | getRamp => cases h
  | clearRamp =>
    cases List.mem_singleton.mp h
    exact hzero
  | ramp b p =>
    simp only [calls] at h
    split at h
    · rcases List.mem_cons.mp h with h | h
      · cases h
      · cases List.mem_singleton.mp h
        exact hzero
    · split at h
      · rename_i hrange
        cases List.mem_singleton.mp h
        rw [Bool.and_eq_true] at hrange
        exact float32_within hrange.1 hrange.2
      · cases h

end RampRequest

/-! ## A request amid others -/

section

variable {ι D : Type} [DecidableEq ι] {apply : RoutingCall → RoutingStatus → Except Raised RoutingStatus}
variable {first : RoutingStatus} {plan : ι → List RoutingCall} {i : ι} {w : Cell ι RoutingStatus RoutingCall}

/-- A request that is answered has made its calls. -/
def Answered (i : ι) (calls : List RoutingCall) (r : Except Raised RoutingStatus)
    (w : Cell ι RoutingStatus RoutingCall) : Prop :=
  ∀ status, r = .ok status → made i w = calls

theorem not_answered {calls : List RoutingCall} {e : Raised} : Answered i calls (.error e) w := by
  intro status h
  cases h

theorem within_status {calls : List RoutingCall} (hw : made i w = calls) :
    Within (cell (D := D) apply .requestError i) (Kept apply first plan) (Rely i) (Guarantee i) (Answered i calls)
      Demo.rampStatus w :=
  within_describe fun _ h₁ _ _ h₂ => fun _ _ => h₂ ▸ h₁.made.trans hw

/-- Changes one after another, and the status. -/
theorem within_calls {call : RoutingCall} {before calls : List RoutingCall} {rest : Routing RoutingStatus}
    (hw : made i w = before) (hplan : before ++ [call] <+: plan i)
    (hrest : ∀ w : Cell ι RoutingStatus RoutingCall, made i w = before ++ [call] →
      Within (cell (D := D) apply .requestError i) (Kept apply first plan) (Rely i) (Guarantee i) (Answered i calls) rest w) :
    Within (cell (D := D) apply .requestError i) (Kept apply first plan) (Rely i) (Guarantee i) (Answered i calls)
      (transaction call >>= fun _ => rest) w :=
  (within_transaction hw hplan).bind (fun _ w hmade => hrest w (hmade rfl)) (fun _ _ _ => not_answered)

theorem within_request (request : RampRequest) (hplan : plan i = request.calls) (hw : made i w = []) :
    Within (cell (D := D) apply .requestError i) (Kept apply first plan) (Rely i) (Guarantee i) (Answered i (plan i))
      request.prog w := by
  rw [hplan]
  cases request with
  | getRamp => exact within_status hw
  | clearRamp => exact within_calls hw (by rw [hplan]; exact List.prefix_rfl) fun w hw => within_status hw
  | ramp buildId percentage =>
    unfold RampRequest.prog Demo.setRamp Deployment.setRamp
    unfold RampRequest.calls at hplan ⊢
    by_cases h100 : atLeast 100 percentage = true
    · simp only [h100, if_true] at hplan ⊢
      rw [bind_assoc]
      refine within_calls hw (by rw [hplan]; exact ⟨[_], rfl⟩) fun w hw => ?_
      exact within_calls hw (by rw [hplan]; exact List.prefix_rfl) fun w hw => within_status hw
    · simp only [h100] at hplan ⊢
      by_cases hrange : (atLeast 0 percentage && atMost 100 percentage) = true
      · simp only [hrange, if_true, Bool.not_true, Bool.false_eq_true, if_false] at hplan ⊢
        exact within_calls hw (by rw [hplan]; exact List.prefix_rfl) fun w hw => within_status hw
      · simp only [hrange, Bool.not_false, if_true]
        exact not_answered

/-- **Routing changes are serial.** Of any number of requests, whatever the
schedule, whichever calls fail, and whatever a change does to the deployment. -/
theorem ramps_serial (apply : RoutingCall → RoutingStatus → Except Raised RoutingStatus) (first : RoutingStatus)
    (request : ι → RampRequest) (sched : List (ι × (Fate × D))) :
    let p := (⟨⟨first, 0, fun _ => none, []⟩, fun i => (request i).prog.lossy .requestError⟩ :
      Pool _ Raised RoutingStatus (Cell ι RoutingStatus RoutingCall) ι).run
        (fun i => (cell apply .requestError i).lossy) sched
    -- each change was made in the state that was described to it
    Serial apply first p.world.changes p.world.state ∧
    (∀ i, made i p.world <+: (request i).calls) ∧
    (∀ i status, Pool.result (p.thread i) = some (.ok status) → made i p.world = (request i).calls) ∧
    ∀ change ∈ p.world.changes, ∀ buildId percentage, change.call = .setRampingVersion buildId percentage →
      atLeast 0 percentage = true ∧ atMost 100 percentage = true := by
  intro p
  have hthread (i : ι) : Within (cell (D := D) apply .requestError i) (Kept apply first fun i => (request i).calls) (Rely i)
      (Guarantee i) (Answered i (request i).calls) (request i).prog ⟨first, 0, fun _ => none, []⟩ :=
    within_request (request i) rfl rfl
  have h := run_serial (e := .requestError) hthread (fun i r w w' hr hw status he => hw.made.trans (hr status he))
    (fun _ _ => not_answered) sched
  refine ⟨h.world.serial, h.world.planned, fun i status hr => h.ended hr status rfl, fun change hc buildId percentage he => ?_⟩
  have hmade : change.call ∈ made change.thread p.world :=
    List.mem_map.mpr ⟨change, List.mem_filter.mpr ⟨hc, by simp⟩, rfl⟩
  have hcall := (h.world.planned change.thread).subset hmade
  rw [he] at hcall
  exact RampRequest.ramp_within hcall

end

/-! ## Two operators -/

/-- A server that does what it is asked to. -/
def setRouting : RoutingCall → RoutingStatus → Except Raised RoutingStatus
  | .setCurrentVersion buildId, status => .ok { status with currentVersion := buildId }
  | .setRampingVersion buildId percentage, status =>
    .ok { status with rampingVersion := buildId, rampingPercentage := percentage }

def ramping : Bool → RampRequest
  | true => .ramp "v9" (.fin (.ofInt 100 (by decide)))
  | false => .ramp "v8" (.fin (.ofInt 25 (by decide)))

/-- A ramp that was described the deployment before another one made `v9`
current is refused. -/
theorem ramps_serial_refused :
    let p := (⟨⟨⟨"v8", "", zeroPercent⟩, 0, fun _ => none, []⟩, fun i => (ramping i).prog.lossy .requestError⟩ :
      Pool _ Raised RoutingStatus (Cell Bool RoutingStatus RoutingCall) Bool).run
        (fun i => (cell (D := Unit) setRouting .requestError i).lossy)
          ([false, true, true, false].map fun i => (i, .answered, ()))
    p.world.state.currentVersion = "v9" ∧ made false p.world = [] ∧ made true p.world <+: (ramping true).calls := by
  obtain ⟨-, hplanned, -⟩ := ramps_serial (D := Unit) setRouting ⟨"v8", "", zeroPercent⟩ ramping
    ([false, true, true, false].map fun i => (i, .answered, ()))
  exact ⟨by decide +kernel, by decide +kernel, hplanned true⟩

end ControlPlane
