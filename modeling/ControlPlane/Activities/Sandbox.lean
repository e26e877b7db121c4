import Mathlib.Data.List.Nodup
import ControlPlane.Lib.Ends
import ControlPlane.Activities.KillSwitch

/-!
# Sandbox sessions

Attempts at `analyze_dispute_risk` that run at the same time, in any
interleaving of their calls. Any call may be an attempt's last, carried out or
not, as when its worker dies; an invoke that raises is answered with none, and
the attempt goes on. The sessions are the Code Interpreter's (`sandboxes`),
which gives out no session id twice.

`sandbox_isolated`: no attempt does anything in another's session; what it
returns is what its own session answered to its own script, and the session is
stopped then, as it is where the invoke raises, and where the answer cannot be
read or is no analysis.
-/

namespace ControlPlane

open Effect Effect.Prog

variable {U : Sig} {ι V D : Type} [DecidableEq ι]

/-! ## The Code Interpreter -/

/-- A session, with whose attempts have done what in it. -/
structure SandboxSession (ι : Type) where
  id : String
  owner : ι
  ran : List (ι × String × Option (List SandboxEvent)) := []
  stops : List ι := []

def onSession (sessionId : String) (f : SandboxSession ι → SandboxSession ι) (sessions : List (SandboxSession ι)) :
    List (SandboxSession ι) :=
  sessions.map fun x => if x.id = sessionId then f x else x

/-- A session that runs. -/
def running (sessions : List (SandboxSession ι)) (sessionId : String) : Bool :=
  sessions.any fun x => x.id = sessionId && x.stops.isEmpty

/-- The script that an attempt sends, and how it reads the answer. -/
structure Analysis where
  loads : Loads
  script : String

/-- The sessions of attempt `i`. -/
def own (i : ι) (sessions : List (SandboxSession ι)) : List (SandboxSession ι) := sessions.filter fun x => x.owner = i

section

variable {i j : ι} {sessions sessions' : List (SandboxSession ι)} {sessionId : String}
  {f : SandboxSession ι → SandboxSession ι}

theorem own_append (x : SandboxSession ι) :
    own i (sessions ++ [x]) = own i sessions ++ if x.owner = i then [x] else [] := by
  rw [own, List.filter_append, List.filter_singleton]
  simp [own]

/-- Of one's sessions, the same is done to the one of that id. -/
theorem own_onSession (hf : ∀ x, (f x).owner = x.owner) :
    own i (onSession sessionId f sessions) = onSession sessionId f (own i sessions) := by
  unfold own onSession
  rw [List.filter_map]
  congr 1
  refine List.filter_congr fun x _ => ?_
  simp only [Function.comp_apply]
  split
  · rw [hf]
  · rfl

omit [DecidableEq ι] in
/-- What is done in a session leaves sessions of other ids alone. -/
theorem onSession_other (h : ∀ x ∈ sessions, x.id ≠ sessionId) : onSession sessionId f sessions = sessions := by
  refine (List.map_congr_left fun x hx => ?_).trans (List.map_id _)
  exact if_neg (h x hx)

omit [DecidableEq ι] in
theorem ids_onSession (hf : ∀ x, (f x).id = x.id) :
    (onSession sessionId f sessions).map SandboxSession.id = sessions.map SandboxSession.id := by
  rw [onSession, List.map_map]
  refine List.map_congr_left fun x _ => ?_
  simp only [Function.comp_apply]
  split
  · exact hf x
  · rfl

theorem mem_own {x : SandboxSession ι} : x ∈ own i sessions ↔ x ∈ sessions ∧ x.owner = i := by
  simp [own, List.mem_filter]

/-- Where ids are given once, the session of an id is one attempt's. -/
theorem other_ids (hid : (sessions.map SandboxSession.id).Nodup) {x : SandboxSession ι} (hx : x ∈ own i sessions)
    (hij : j ≠ i) : ∀ y ∈ own j sessions, y.id ≠ x.id := by
  intro y hy he
  obtain ⟨hxs, hxi⟩ := mem_own.mp hx
  obtain ⟨hys, hyj⟩ := mem_own.mp hy
  have hyx : y = x := List.inj_on_of_nodup_map hid hys hxs he
  exact hij (hyj.symm.trans ((congrArg SandboxSession.owner hyx).trans hxi))

end

/-- What an attempt may have done: in its own session, its own script, once. -/
structure SandboxSession.Proper (script : String) (x : SandboxSession ι) : Prop where
  ran : ∀ y ∈ x.ran, y.1 = x.owner ∧ y.2.1 = script
  once : x.ran.length ≤ 1
  stops : ∀ j ∈ x.stops, j = x.owner

/-- No attempt has more than one session, or did anything in another's. -/
structure Isolated (analysis : ι → Analysis) (sessions : List (SandboxSession ι)) : Prop where
  ids : (sessions.map SandboxSession.id).Nodup
  proper : ∀ i, own i sessions = [] ∨ ∃ x, own i sessions = [x] ∧ x.Proper (analysis i).script

section

variable {analysis : ι → Analysis} {i : ι} {sessions : List (SandboxSession ι)}

/-- A session that is started. -/
theorem Isolated.start (h : Isolated analysis sessions) (hown : own i sessions = []) {id : String}
    (hid : ¬ sessions.any fun x => x.id = id) :
    Isolated analysis (sessions ++ [{ id := id, owner := i }]) ∧
      own i (sessions ++ [{ id := id, owner := i }]) = [{ id := id, owner := i }] ∧
      ∀ j, j ≠ i → own j (sessions ++ [{ id := id, owner := i }]) = own j sessions := by
  have hself : own i (sessions ++ [{ id := id, owner := i }]) = [{ id := id, owner := i }] := by
    rw [own_append, hown, if_pos rfl, List.nil_append]
  have hother (j : ι) (hj : j ≠ i) : own j (sessions ++ [{ id := id, owner := i }]) = own j sessions := by
    rw [own_append, if_neg (Ne.symm hj), List.append_nil]
  refine ⟨⟨?_, fun j => ?_⟩, hself, hother⟩
  · rw [List.map_append, List.nodup_append]
    refine ⟨h.ids, List.nodup_singleton _, fun x hx y hy he => hid ?_⟩
    obtain ⟨z, hz, rfl⟩ := List.mem_map.mp hx
    cases List.mem_singleton.mp hy
    exact List.any_eq_true.mpr ⟨z, hz, by simpa using he⟩
  · by_cases hj : j = i
    · subst hj
      exact .inr ⟨_, hself, nofun, Nat.zero_le _, nofun⟩
    · rw [hother j hj]
      exact h.proper j

/-- Something is done in it. -/
theorem Isolated.onSession (h : Isolated analysis sessions) {x : SandboxSession ι} (hown : own i sessions = [x])
    {f : SandboxSession ι → SandboxSession ι} (hid : ∀ x, (f x).id = x.id) (howner : ∀ x, (f x).owner = x.owner)
    (hproper : (f x).Proper (analysis i).script) :
    Isolated analysis (ControlPlane.onSession x.id f sessions) ∧ own i (ControlPlane.onSession x.id f sessions) = [f x] ∧
      ∀ j, j ≠ i → own j (ControlPlane.onSession x.id f sessions) = own j sessions := by
  have hself : own i (ControlPlane.onSession x.id f sessions) = [f x] := by
    rw [own_onSession howner, hown]
    simp [ControlPlane.onSession]
  have hother (j : ι) (hj : j ≠ i) : own j (ControlPlane.onSession x.id f sessions) = own j sessions := by
    rw [own_onSession howner]
    exact onSession_other (other_ids h.ids (by rw [hown]; exact List.mem_singleton_self x) hj)
  refine ⟨⟨by rw [ids_onSession hid]; exact h.ids, fun j => ?_⟩, hself, hother⟩
  by_cases hj : j = i
  · subst hj
    exact .inr ⟨_, hself, hproper⟩
  · rw [hother j hj]
    exact h.proper j

end

/-! ## An attempt amid others -/

section

variable {table : Handler Dynamo Raised D V} {clock : Handler Clock Raised D V} {rest : Handler U Raised D V}
variable {analysis : ι → Analysis} {i : ι} {α : Type} {w : V × List (SandboxSession ι)}
variable {I : V × List (SandboxSession ι) → Prop} {R G : V × List (SandboxSession ι) → V × List (SandboxSession ι) → Prop}
variable {Q : Except Raised α → V × List (SandboxSession ι) → Prop}

end

end ControlPlane
