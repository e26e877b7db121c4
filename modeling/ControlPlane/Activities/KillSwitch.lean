import Mathlib.Data.Finset.Card
import Mathlib.Order.Interval.Finset.Nat
import ControlPlane.Lib.Pool
import ControlPlane.Activities.Idempotency

/-!
# The armed kill switch

Workers whose tool calls and sandbox sessions check the switch (`maybeKill`),
and operators who arm and reset it (`Task`), in any interleaving of their
calls (`Office`). A worker that dies between two calls is one whose next call
is refused; an attempt that is started again is another thread of the same
task. The armings are counted, and `found` is the number of the one that a
thread has found.

`maybe_kill` reads and then writes unconditionally, so that two checks may find
one arming (`kill_twice`). `kills_le_arms`: where each arming is found by one
check at a time, the switch kills no more workers than it was armed.
-/

namespace ControlPlane

open Effect Effect.Prog

variable {U T : Sig} {ι V D α β : Type}

/-! ## The sandbox activity -/

inductive SandboxOp
  | startSession
  /-- The answer is none where the call raises. -/
  | invoke (sessionId code : String)
  | stopSession (sessionId : String)

/-- An event of the answer: the type and the text of each item of its result, if it has one. -/
abbrev SandboxEvent := Option (List (String × String))

def SandboxOp.Ans : SandboxOp → Type
  | startSession => String
  | invoke _ _ => Option (List SandboxEvent)
  | stopSession _ => Unit

/-- The Code Interpreter. -/
def Sandbox : Sig := ⟨SandboxOp, SandboxOp.Ans⟩

def startSandbox : Activity (U.sum Sandbox) String := provider (inr (op (S := Sandbox) .startSession))

def invokeSandbox (sessionId code : String) : Activity (U.sum Sandbox) (Option (List SandboxEvent)) :=
  provider (inr (op (S := Sandbox) (.invoke sessionId code)))

def stopSandbox (sessionId : String) : Activity (U.sum Sandbox) Unit :=
  provider (inr (op (S := Sandbox) (.stopSession sessionId)))

structure DisputeRiskAnalysis where
  riskScore : PyFloat
  report : String

def DisputeRiskAnalysis.ofKwargs [Pydantic] : Attrs → Except Raised DisputeRiskAnalysis :=
  construct ["risk_score", "report"] fun kw => do
    return {
      riskScore := ← field kw "risk_score" asFloat
      report := ← field kw "report" asStr }

/-- `_extract_text`. -/
def extractText (events : List SandboxEvent) : String :=
  String.join (((events.filterMap id).flatten.filter fun item => item.1 = "text").map Prod.snd)

/-- `json.loads`; its error is a JSONDecodeError's message. -/
abbrev Loads := String → Except String Value

/-- `parsed[name]`. -/
def subscript (parsed : Value) (name : String) : Except Raised Value :=
  match parsed with
  | .dict kvs => (kvs.lookup name).elim (.error (.keyError name)) .ok
  | _ => .error .typeError

/-- What the activity makes of the script's output. -/
def riskAnalysis [Pydantic] (parsed : Value) : Except Raised DisputeRiskAnalysis := do
  let riskScore ← subscript parsed "risk_score"
  let report ← subscript parsed "report"
  DisputeRiskAnalysis.ofKwargs [("risk_score", riskScore), ("report", report)]

/-- `analyze_dispute_risk`, with the script it sends. -/
def analyzeDisputeRisk [Pydantic] (loads : Loads) (script : String) : Activity (U.sum Sandbox) DisputeRiskAnalysis := do
  let sessionId ← startSandbox
  maybeKill
  let response ← invokeSandbox sessionId script
  let parsed : Except Raised Value :=
    match response with
    | none => .error .clientError
    | some events => (loads (extractText events)).mapError .valueError
  stopSandbox sessionId
  let parsed ← ofExcept parsed
  ofExcept (riskAnalysis parsed)

/-! ## What runs -/

/-- `arm_kill_switch`. -/
def armKillSwitch : Activity T KillSwitch := do
  let setting : KillSwitch := { armed := true }
  repo (putKillSwitch setting)
  return setting

/-- The exception is not the end of the process. -/
def Caught (e : Raised) : Prop := ∀ code, e ≠ .exit code

/-- What a thread does. -/
inductive Task (U : Sig)
  /-- A call of a consequential tool, whose performing does not end the process. -/
  | tool (namePrefix : String) (info : Info) (perform : String → Prog U Raised Attrs)
    (hp : ∀ idempotencyKey, Fails Caught (perform idempotencyKey))
  | analyze (loads : Loads) (script : String)
  | arm
  | reset

def Task.prog [Pydantic] : Task U → Activity (U.sum Sandbox) Unit
  | tool namePrefix info perform _ => do
    let _ ← runOnce namePrefix info fun idempotencyKey => provider (inl (perform idempotencyKey))
  | analyze loads script => do let _ ← analyzeDisputeRisk loads script
  | arm => do let _ ← armKillSwitch
  | reset => repo (putKillSwitch { armed := false })

/-! ## The table they share -/

/-- The switch, as a read of its row gives it. -/
def armedRow (row : Option Attrs) : Bool :=
  match readRow (ofItem KillSwitch.ofKwargs) row with
  | .ok (some setting) => setting.armed
  | _ => false

def armedIn (t : Table) : Bool := armedRow (t.lookup killSwitchKey)

/-- Whether a call reads the switch, and reads it as armed. -/
def finds : (o : DynamoOp) → o.Ans → Bool
  | .getItem key, row => decide (key = killSwitchKey) && armedRow row
  | _, _ => false

structure Office (ι V : Type) where
  table : Table
  /-- What the rest of the world is to the tools and the sandbox. -/
  env : V
  /-- How often the switch has been armed, counting once that it was at the start. -/
  arms : ℕ
  /-- The earlier versions of the table, with how often it had been armed by then. -/
  earlier : List (Table × ℕ) := []
  /-- The arming that a thread found. -/
  found : ι → Option ℕ := fun _ => none

/-- What a call finds: a read an earlier version of the table, or the current
one if none. -/
structure Glance (D : Type) where
  version : Option ℕ := none
  page : List Row → List Row := id
  instant : String := "2026-09-02T14:02:00+00:00"
  reply : D

def Office.seen (w : Office ι V) (c : Glance D) : Table × ℕ :=
  (c.version >>= fun n => w.earlier[n]?).getD (w.table, w.arms)

section

variable [DecidableEq ι]

/-- What a call of thread `i` leaves, where it leaves the table `t`. -/
def Office.after (w : Office ι V) (i : ι) (c : Glance D) (o : DynamoOp) (a : o.Ans) (t : Table) : Office ι V :=
  { w with
    table := t
    arms := if o.writes = some killSwitchKey ∧ armedIn t then w.arms + 1 else w.arms
    earlier := (w.table, w.arms) :: w.earlier
    found := if finds o a then Function.update w.found i (some (w.seen c).2) else w.found }

def officeTable (i : ι) : Handler Dynamo Raised (Glance D) (Office ι V) := fun o c w =>
  match dynamo c.page (w.seen c).1 o w.table with
  | .error e => .error e
  | .ok (a, t) => .ok (a, w.after i c o a t)

def officeClock : Handler Clock Raised (Glance D) (Office ι V) := fun _ c w => .ok (c.instant, w)

/-- What the tools and the sandbox talk to. -/
def officeRest (respond : (o : T.Op) → D → V → T.Ans o × V) : Handler T Raised (Glance D) (Office ι V) := fun o c w =>
  .ok ((respond o c.reply w.env).1, { w with env := (respond o c.reply w.env).2 })

def officeCalls (respond : (o : T.Op) → D → V → T.Ans o × V) (i : ι) :
    Handler (Dynamo.sum (Clock.sum T)) Raised (Glance D) (Office ι V) :=
  (officeTable i).sum (officeClock.sum (officeRest respond))

/-- Any call may raise, whether it was carried out or not. -/
def office (respond : (o : T.Op) → D → V → T.Ans o × V) (i : ι) :
    Handler (Dynamo.sum (Clock.sum T)).lossy Raised (Fate × Glance D) (Office ι V) := (officeCalls respond i).lossy

end

/-- A task under way. -/
abbrev Working (T : Sig) := Prog (Dynamo.sum (Clock.sum T)).lossy Raised Unit

abbrev Staff (T : Sig) (ι V : Type) := Pool (Dynamo.sum (Clock.sum T)).lossy Raised Unit (Office ι V) ι

/-- The tasks, about to start. -/
def staff [Pydantic] (task : ι → Task U) (table : Table) (env : V) : Staff (U.sum Sandbox) ι V :=
  ⟨{ table, env, arms := if armedIn table then 1 else 0 }, fun i => (task i).prog.lossy .requestError⟩

/-- `os._exit` has been called. -/
def exited : Working T → Bool
  | .fail (.exit _) => true
  | .fail _ => false
  | .done _ => false
  | .call _ _ => false

/-- The switch has killed no more workers than it was armed. -/
def KillsWithinArms (p : Staff T ι V) : Prop :=
  ∀ killed : Finset ι, (∀ i ∈ killed, exited (p.thread i) = true) → killed.card ≤ p.world.arms

/-! ## One check at a time -/

/-- The task has ended, and not by a kill. -/
def survived (q : Working T) : Bool := decide (Ended q) && !exited q

/-- The next call reads the switch. -/
def checks : Working T → Bool
  | .call (.inl (.getItem key)) _ => key = killSwitchKey
  | .call _ _ => false
  | .done _ => false
  | .fail _ => false

/-- A check that is about to find the switch armed is the only one to have
found that arming, but for checks whose task has failed since. -/
def Alone (p : Staff T ι V) (x : ι × Fate × Glance D) : Prop :=
  checks (p.thread x.1) = true → x.2.1 = .answered → armedIn (p.world.seen x.2.2).1 = true →
    ∀ j, j ≠ x.1 → p.world.found j = some (p.world.seen x.2.2).2 → survived (p.thread j) = true

instance [Fintype ι] [DecidableEq ι] (p : Staff T ι V) (x : ι × Fate × Glance D) : Decidable (Alone p x) := by
  unfold Alone
  infer_instance

/-! ## A task exits only where it has found the switch armed -/

/-- Whatever its calls answer, the program ends its process only if it has
found the switch armed. -/
def ExitsFound : Bool → Activity T α → Prop
  | _, .done _ => True
  | found, .fail e => Caught e ∨ found = true
  | found, .call (.inl o) k => ∀ a, ExitsFound (found || finds o a) (k a)
  | found, .call (.inr _) k => ∀ a, ExitsFound found (k a)

theorem ExitsFound.mono {found found' : Bool} {p : Activity T α} (hp : ExitsFound found p)
    (h : found = true → found' = true) : ExitsFound found' p := by
  induction p generalizing found found' with
  | done a => trivial
  | fail e => exact hp.imp_right h
  | call o k ih =>
    obtain o | o := o
    · refine fun a => ih a (hp a) fun hf => ?_
      rw [Bool.or_eq_true] at hf ⊢
      exact hf.imp_left h
    · exact fun a => ih a (hp a) h

theorem ExitsFound.bind {found : Bool} {p : Activity T α} {f : α → Activity T β} (hp : ExitsFound found p)
    (hf : ∀ a, ExitsFound found (f a)) : ExitsFound found (p >>= f) := by
  induction p generalizing found with
  | done a => exact hf a
  | fail e => exact hp
  | call o k ih =>
    obtain o | o := o
    · exact fun a => ih a (hp a) fun b => (hf b).mono fun h => by rw [h, Bool.true_or]
    · exact fun a => ih a (hp a) hf

theorem ExitsFound.of_fails {p : Activity T α} (hp : Fails Caught p) (found : Bool) : ExitsFound found p := by
  induction p generalizing found with
  | done a => trivial
  | fail e => exact .inl hp
  | call o k ih =>
    obtain o | o := o
    · exact fun a => ih a (hp a) _
    · exact fun a => ih a (hp a) found

theorem caught_construct {required : List String} {build : Attrs → Option α} {kw : Attrs} {e : Raised}
    (h : construct required build kw = .error e) : Caught e := by
  unfold construct at h
  split at h
  · split at h
    · cases h
    · cases h; exact fun _ h => by cases h
  · cases h; exact fun _ h => by cases h

/-- A row that cannot be read raises something that can be caught, if its
keyword arguments do. -/
theorem caught_ofItem {ofKwargs : Attrs → Except Raised α} (hk : ∀ kw e, ofKwargs kw = .error e → Caught e)
    {row : Attrs} {e : Raised} (h : ofItem ofKwargs row = .error e) : Caught e := by
  unfold ofItem decode at h
  cases hd : fromDecimalDict row with
  | none =>
    rw [hd] at h
    cases h
    exact fun _ h => by cases h
  | some kw =>
    rw [hd] at h
    exact hk kw e h

theorem caught_killSwitch {row : Attrs} {e : Raised} (h : ofItem KillSwitch.ofKwargs row = .error e) : Caught e := by
  refine caught_ofItem (fun kw e h => ?_) h
  unfold KillSwitch.ofKwargs flagOfKwargs at h
  cases hc : construct [] (fun kw => fieldD kw "armed" false asBool) kw with
  | error e' =>
    rw [hc] at h
    cases h
    exact caught_construct hc
  | ok armed =>
    rw [hc] at h
    cases h

theorem fails_getRow {k : Key} {ofItem : Attrs → Except Raised α} {P : Raised → Prop}
    (h : ∀ row e, ofItem row = .error e → P e) : Fails P (getRow k ofItem) := by
  rw [getRow_eq]
  intro row
  cases row with
  | none => trivial
  | some row => exact (Fails.ofExcept (h row)).bind fun _ => trivial

/-- A check ends the process only where it has found the switch armed. -/
theorem maybeKill_exits : ExitsFound false (maybeKill (T := T)) := by
  unfold maybeKill getKillSwitch
  rw [getRow_eq]
  intro row
  cases row with
  | none => trivial
  | some row =>
    cases hr : ofItem KillSwitch.ofKwargs row with
    | error e =>
      simp only [hr]
      exact .inl (caught_killSwitch hr)
    | ok setting =>
      have hf : finds (.getItem killSwitchKey) (some row) = setting.armed := by
        simp [finds, armedRow, readRow, hr, Except.map]
      have hrest : ExitsFound (T := T) setting.armed (if setting.armed = true then (do
          repo (putKillSwitch { armed := false })
          fail (.exit 1)) else pure ()) := by
        cases setting.armed with
        | true => exact fun _ => .inr rfl
        | false => trivial
      simp only [hr, Bool.false_or, hf]
      exact hrest

section

variable {namePrefix : String} {info : Info}

theorem fails_claim (idempotencyKey createdAt : String) : Fails Caught (claimIdempotencyKey idempotencyKey createdAt) := by
  refine (Fails.ofExcept fun e h => ?_).bind fun ttl => fun _ => trivial
  unfold expiresAt at h
  split at h
  · cases h
  · cases h
    exact fun _ h => by cases h

theorem runOnce_exits {perform : String → Prog U Raised Attrs} (hp : ∀ k, Fails Caught (perform k)) :
    ExitsFound false (runOnce (T := U.sum Sandbox) namePrefix info fun k => provider (inl (perform k))) := by
  have hread : Fails Caught (getIdempotencyRecord (key namePrefix info)) :=
    fails_getRow fun row e h => caught_ofItem (fun kw e => caught_construct) h
  refine (ExitsFound.of_fails hread.inl _).bind fun existing => ?_
  split
  · trivial
  · refine ExitsFound.bind (fun _ => trivial) fun createdAt => ?_
    refine (ExitsFound.of_fails (fails_claim _ createdAt).inl _).bind fun claimed => ?_
    split
    · exact .inl fun _ h => by cases h
    · refine (ExitsFound.of_fails (hp _).inl.inr.inr _).bind fun result => ?_
      refine maybeKill_exits.bind fun _ => ?_
      exact ExitsFound.bind (fun _ => trivial) fun _ => trivial

end

theorem caught_subscript {parsed : Value} {name : String} {e : Raised} (h : subscript parsed name = .error e) :
    Caught e := by
  unfold subscript at h
  split at h
  · rename_i kvs
    cases hl : kvs.lookup name with
    | none =>
      rw [hl] at h
      cases h
      exact fun _ h => by cases h
    | some v =>
      rw [hl] at h
      cases h
  · cases h
    exact fun _ h => by cases h

theorem caught_riskAnalysis [Pydantic] {parsed : Value} {e : Raised} (h : riskAnalysis parsed = .error e) : Caught e := by
  unfold riskAnalysis at h
  cases hs : subscript parsed "risk_score" with
  | error e' =>
    rw [hs] at h
    cases h
    exact caught_subscript hs
  | ok riskScore =>
    rw [hs] at h
    cases hr : subscript parsed "report" with
    | error e' =>
      rw [hr] at h
      cases h
      exact caught_subscript hr
    | ok report =>
      rw [hr] at h
      have hbuilt : DisputeRiskAnalysis.ofKwargs [("risk_score", riskScore), ("report", report)] = .error e := h
      exact caught_construct hbuilt

theorem analyze_exits [Pydantic] (loads : Loads) (script : String) :
    ExitsFound false (analyzeDisputeRisk (U := U) loads script) := by
  refine ExitsFound.bind (fun _ => trivial) fun sessionId => ?_
  refine maybeKill_exits.bind fun _ => ?_
  refine ExitsFound.bind (fun _ => trivial) fun response => ?_
  refine ExitsFound.bind (fun _ => trivial) fun _ => ?_
  refine (ExitsFound.of_fails (Fails.ofExcept fun e h => ?_) _).bind fun parsed =>
    ExitsFound.of_fails (Fails.ofExcept fun e h => caught_riskAnalysis h) _
  split at h
  · cases h
    exact fun _ h => by cases h
  · cases hl : loads (extractText _) with
    | error message =>
      rw [hl] at h
      cases h
      exact fun _ h => by cases h
    | ok parsed =>
      rw [hl] at h
      cases h

theorem Task.exits [Pydantic] (task : Task U) : ExitsFound false task.prog := by
  cases task with
  | tool namePrefix info perform hp => exact (runOnce_exits hp).bind fun _ => trivial
  | analyze loads script => exact (analyze_exits loads script).bind fun _ => trivial
  | arm => exact ExitsFound.bind (ExitsFound.bind (fun _ => trivial) fun _ => trivial) fun _ => trivial
  | reset => exact fun _ => trivial

/-! ## What every step keeps -/

/-- The armings are numbered from one: a version of the table in which the
switch is armed has the number of its last arming. -/
structure Numbered (w : Office ι V) : Prop where
  versions : ∀ v ∈ (w.table, w.arms) :: w.earlier, v.2 ≤ w.arms ∧ (armedIn v.1 = true → 1 ≤ v.2)
  found : ∀ i n, w.found i = some n → 1 ≤ n ∧ n ≤ w.arms

theorem Office.seen_mem (w : Office ι V) (c : Glance D) : w.seen c ∈ (w.table, w.arms) :: w.earlier := by
  unfold Office.seen
  cases hv : c.version >>= fun n => w.earlier[n]? with
  | none => exact List.mem_cons_self
  | some v =>
    rw [Option.bind_eq_bind, Option.bind_eq_some_iff] at hv
    obtain ⟨n, -, hn⟩ := hv
    exact List.mem_cons_of_mem _ (List.mem_of_getElem? hn)

/-- A call that finds the switch armed reads it from a version in which it is. -/
theorem finds_armed {page : List Row → List Row} {seen t t' : Table} {o : DynamoOp} {a : o.Ans}
    (h : dynamo page seen o t = .ok (a, t')) (hf : finds o a = true) :
    o = .getItem killSwitchKey ∧ armedIn seen = true := by
  cases o with
  | getItem key =>
    cases h
    simp only [finds, Bool.and_eq_true, decide_eq_true_eq] at hf
    obtain ⟨rfl, ha⟩ := hf
    exact ⟨rfl, ha⟩
  | _ => cases hf

section

variable [DecidableEq ι] {respond : (o : T.Op) → D → V → T.Ans o × V} {i : ι} {w w' : Office ι V}
variable {c : Glance D}

theorem officeTable_ok {o : DynamoOp} {a : o.Ans} (h : officeTable i o c w = .ok (a, w')) :
    ∃ t, dynamo c.page (w.seen c).1 o w.table = .ok (a, t) ∧ w' = w.after i c o a t := by
  simp only [officeTable] at h
  split at h
  · cases h
  · rename_i a t ht
    cases h
    exact ⟨t, ht, rfl⟩

/-- What a call leaves is numbered as well. -/
theorem Numbered.after (hw : Numbered w) {o : DynamoOp} {a : o.Ans} {t : Table}
    (h : dynamo c.page (w.seen c).1 o w.table = .ok (a, t)) : Numbered (w.after i c o a t) := by
  have hle : w.arms ≤ (w.after i c o a t).arms := by
    simp only [Office.after]
    split
    · exact Nat.le_succ _
    · exact le_rfl
  refine ⟨fun v hv => ?_, fun j n hj => ?_⟩
  · obtain hv | hv := List.mem_cons.mp hv
    · subst hv
      refine ⟨le_rfl, fun ha => ?_⟩
      by_cases hw' : o.writes = some killSwitchKey
      · -- the call has armed it
        simp only [Office.after, hw', true_and] at ha ⊢
        rw [if_pos ha]
        exact Nat.succ_le_succ (Nat.zero_le _)
      · refine ((hw.versions _ List.mem_cons_self).2 ?_).trans hle
        simp only [Office.after, armedIn, dynamo_frame h hw'] at ha
        exact ha
    · obtain ⟨hn, ha⟩ := hw.versions v hv
      exact ⟨hn.trans hle, ha⟩
  · have hold (hj : w.found j = some n) : 1 ≤ n ∧ n ≤ (w.after i c o a t).arms :=
      ⟨(hw.found j n hj).1, (hw.found j n hj).2.trans hle⟩
    by_cases hf : finds o a = true
    · simp only [Office.after, hf, if_true] at hj
      by_cases hji : j = i
      · subst hji
        rw [Function.update_self] at hj
        cases hj
        obtain ⟨hn, ha⟩ := hw.versions _ (w.seen_mem c)
        exact ⟨ha (finds_armed h hf).2, hn.trans hle⟩
      · exact hold ((Function.update_of_ne hji _ _).symm.trans hj)
    · simp only [Office.after, hf] at hj
      exact hold hj

/-- What a call that is carried out leaves: the thread has found what it had, or
it has found the switch armed. -/
theorem officeCalls_ok {o : (Dynamo.sum (Clock.sum T)).Op} {a : (Dynamo.sum (Clock.sum T)).Ans o} (hw : Numbered w)
    (h : officeCalls respond i o c w = .ok (a, w')) :
    Numbered w' ∧ (w'.found = w.found ∨ (o = .inl (.getItem killSwitchKey) ∧ armedIn (w.seen c).1 = true ∧
      w'.found = Function.update w.found i (some (w.seen c).2))) := by
  obtain o | o | o := o
  · obtain ⟨t, ht, rfl⟩ := officeTable_ok (o := o) h
    refine ⟨hw.after ht, ?_⟩
    by_cases hf : finds o a = true
    · obtain ⟨rfl, ha⟩ := finds_armed ht hf
      exact .inr ⟨rfl, ha, if_pos hf⟩
    · exact .inl (if_neg hf)
  · cases h
    exact ⟨hw, .inl rfl⟩
  · cases h
    exact ⟨⟨hw.versions, hw.found⟩, .inl rfl⟩

/-- What a task goes on with exits only where it has found the switch armed. -/
theorem ExitsFound.call {o : (Dynamo.sum (Clock.sum T)).Op} {k : (Dynamo.sum (Clock.sum T)).Ans o → Activity T Unit}
    {a : (Dynamo.sum (Clock.sum T)).Ans o} (hk : ExitsFound (w.found i).isSome (.call o k))
    (h : officeCalls respond i o c w = .ok (a, w')) : ExitsFound (w'.found i).isSome (k a) := by
  obtain o | o | o := o
  · obtain ⟨t, -, rfl⟩ := officeTable_ok (o := o) h
    refine (hk a).mono fun hf => ?_
    rw [Bool.or_eq_true] at hf
    by_cases hf' : finds o a = true
    · simp only [Office.after, hf', if_true, Function.update_self, Option.isSome_some]
    · simpa only [Office.after, hf', if_false, or_false, Bool.false_eq_true] using hf
  · cases h
    exact hk _
  · cases h
    exact hk _

theorem officeCalls_caught {o : (Dynamo.sum (Clock.sum T)).Op} {e : Raised}
    (h : officeCalls respond i o c w = .error e) : Caught e := by
  obtain o | o | o := o
  · have ht : officeTable i o c w = .error e := h
    simp only [officeTable] at ht
    split at ht
    · rename_i e' hd
      cases ht
      cases o with
      | putItem key attrs ifAbsent =>
        simp only [dynamo] at hd
        split at hd
        · cases hd
          exact fun _ h => by cases h
        · split at hd <;> cases hd
      | updateItem key set ifPresent =>
        simp only [dynamo] at hd
        split at hd
        · cases hd
          exact fun _ h => by cases h
        · split at hd <;> cases hd
      | _ => cases hd
    · cases ht
  · cases h
  · cases h

/-- Of two threads that have found one arming, one has ended without a kill. -/
def FoundApart (found : ι → Option ℕ) (thread : ι → Working T) : Prop :=
  ∀ i j n, i ≠ j → found i = some n → found j = some n → survived (thread i) = true ∨ survived (thread j) = true

/-- A step of a thread keeps them apart, if it ends there without a kill, or
has found what it had, or no other has found what it finds. -/
theorem FoundApart.step {found found' : ι → Option ℕ} {thread : ι → Working T} (h : FoundApart found thread)
    (hi : survived (thread i) = false) (hne : ∀ j, j ≠ i → found' j = found j) {q : Working T}
    (hq : survived q = true ∨ found' i = found i ∨
      ∀ j n, j ≠ i → found' i = some n → found j = some n → survived (thread j) = true) :
    FoundApart found' (Function.update thread i q) := by
  -- what holds of the thread and any other
  have hpair : ∀ j n, j ≠ i → found' i = some n → found' j = some n → survived q = true ∨ survived (thread j) = true := by
    intro j n hji hn hj
    rw [hne j hji] at hj
    obtain hs | hf | hall := hq
    · exact .inl hs
    · refine .inr ((h i j n (Ne.symm hji) (hf.symm.trans hn) hj).resolve_left ?_)
      rw [hi]
      exact Bool.false_ne_true
    · exact .inr (hall j n hji hn hj)
  intro a b n hab ha hb
  by_cases hai : a = i
  · subst hai
    rw [Function.update_self, Function.update_of_ne (Ne.symm hab)]
    exact hpair b n (Ne.symm hab) ha hb
  · by_cases hbi : b = i
    · subst hbi
      rw [Function.update_self, Function.update_of_ne hai]
      exact (hpair a n hai hb ha).symm
    · rw [Function.update_of_ne hai, Function.update_of_ne hbi]
      exact h a b n hab ((hne a hai).symm.trans ha) ((hne b hbi).symm.trans hb)

/-- What every step that meets `Alone` keeps. -/
structure Switched (p : Staff T ι V) : Prop where
  numbered : Numbered p.world
  apart : FoundApart p.world.found p.thread
  exits : ∀ j, ∃ q : Activity T Unit, p.thread j = q.lossy .requestError ∧ ExitsFound (p.world.found j).isSome q

theorem survived_fail {e : Raised} (he : Caught e) : survived (.fail e : Working T) = true := by
  cases e with
  | exit code => exact absurd rfl (he code)
  | _ => rfl

/-- A step of thread `i`. -/
theorem Switched.update {p : Staff T ι V} (hp : Switched p) (hi : survived (p.thread i) = false) (hw : Numbered w')
    (hne : ∀ j, j ≠ i → w'.found j = p.world.found j) {q : Activity T Unit}
    (hex : ExitsFound (w'.found i).isSome q)
    (hq : survived (q.lossy .requestError) = true ∨ w'.found i = p.world.found i ∨
      ∀ j n, j ≠ i → w'.found i = some n → p.world.found j = some n → survived (p.thread j) = true) :
    Switched ⟨w', Function.update p.thread i (q.lossy .requestError)⟩ := by
  refine ⟨hw, hp.apart.step hi hne hq, fun j => ?_⟩
  by_cases hji : j = i
  · subst hji
    exact ⟨q, Function.update_self .., hex⟩
  · obtain ⟨q', hq', he⟩ := hp.exits j
    exact ⟨q', (Function.update_of_ne hji _ _).trans hq', (hne j hji).symm ▸ he⟩

theorem Switched.step {p : Staff T ι V} (hp : Switched p) {x : ι × Fate × Glance D} (hx : Alone p x) :
    Switched (p.step (office respond) x) := by
  obtain ⟨i, c⟩ := x
  obtain ⟨q, hq, he⟩ := hp.exits i
  cases q with
  | done a => rw [Pool.step_ended (by rw [hq]; exact trivial)]; exact hp
  | fail e => rw [Pool.step_ended (by rw [hq]; exact trivial)]; exact hp
  | call o k =>
    have hcall := hq
    rw [Prog.lossy] at hcall
    have hi : survived (p.thread i) = false := by
      rw [hcall]
      rfl
    rw [Pool.step_eq]
    simp only [hq, office]
    obtain ⟨e, hcaught, hnext⟩ | ⟨a, w', hc, hnext⟩ :=
      next_lossy (officeCalls respond i) .requestError o k c p.world
    · -- the call raises, and has done nothing
      have hcaught : Caught e := hcaught.elim (fun h => h ▸ fun _ h => by cases h) officeCalls_caught
      rw [hnext]
      exact hp.update (q := .fail e) hi hp.numbered (fun _ _ => rfl) (.inl hcaught) (.inl (survived_fail hcaught))
    · obtain ⟨hw, hfound⟩ := officeCalls_ok hp.numbered hc
      have hne : ∀ j, j ≠ i → w'.found j = p.world.found j := by
        intro j hji
        obtain hf | ⟨-, -, hf⟩ := hfound
        · rw [hf]
        · rw [hf, Function.update_of_ne hji]
      obtain ⟨hanswered, hnext⟩ | hnext := hnext
      · rw [hnext]
        refine hp.update hi hw hne (he.call hc) (.inr ?_)
        obtain hf | ⟨rfl, harmed, hf⟩ := hfound
        · exact .inl (congrFun hf i)
        · -- it has found the switch armed
          refine .inr fun j n hji hn hj => hx ?_ hanswered harmed j hji ?_
          · rw [hcall]
            simp only [checks, decide_true]
          · rw [hf, Function.update_self] at hn
            exact hj.trans hn.symm
      · rw [hnext]
        exact hp.update (q := .fail .requestError) hi hw hne (.inl fun _ h => by cases h) (.inl rfl)

omit [DecidableEq ι] in
theorem staff_switched [Pydantic] (task : ι → Task U) (table : Table) (env : V) : Switched (staff task table env) := by
  refine ⟨⟨fun v hv => ?_, fun _ _ h => (by cases h)⟩, fun _ _ _ _ h => (by cases h),
    fun j => ⟨_, rfl, (task j).exits⟩⟩
  rw [List.mem_singleton.mp hv]
  refine ⟨le_rfl, fun ha => ?_⟩
  simp only [staff] at ha ⊢
  rw [if_pos ha]

/-- A kill is of a thread that found an arming, and no two killed ones found
the same. -/
theorem Switched.kills {p : Staff T ι V} (hp : Switched p) : KillsWithinArms p := by
  intro killed hk
  have hfound : ∀ j ∈ killed, ∃ n, p.world.found j = some n := by
    intro j hj
    obtain ⟨q, hq, he⟩ := hp.exits j
    have hexit := hk j hj
    rw [hq] at hexit
    cases q with
    | done a => cases hexit
    | call o k =>
      rw [Prog.lossy] at hexit
      cases hexit
    | fail e =>
      refine Option.isSome_iff_exists.mp (he.resolve_left fun hc => ?_)
      cases e with
      | exit code => exact hc code rfl
      | _ => cases hexit
  have hdead : ∀ j ∈ killed, survived (p.thread j) ≠ true := by
    intro j hj
    rw [survived, hk j hj, Bool.not_true, Bool.and_false]
    exact Bool.false_ne_true
  let number : ι → ℕ := fun j => (p.world.found j).getD 0
  have hnumber : ∀ j n, p.world.found j = some n → number j = n := fun j n h => congrArg (fun o => o.getD 0) h
  have hmaps : ∀ j ∈ killed, number j ∈ Finset.Icc 1 p.world.arms := by
    intro j hj
    obtain ⟨n, hn⟩ := hfound j hj
    rw [hnumber j n hn]
    exact Finset.mem_Icc.mpr (hp.numbered.found j n hn)
  have hinj : ∀ a ∈ killed, ∀ b ∈ killed, number a = number b → a = b := by
    intro a ha b hb hab
    obtain ⟨n, hn⟩ := hfound a ha
    obtain ⟨m, hm⟩ := hfound b hb
    rw [hnumber a n hn, hnumber b m hm] at hab
    subst hab
    by_contra hne
    exact (hp.apart a b n hne hn hm).elim (hdead a ha) (hdead b hb)
  calc killed.card ≤ (Finset.Icc 1 p.world.arms).card := Finset.card_le_card_of_injOn number hmaps hinj
    _ = p.world.arms := by rw [Nat.card_Icc, Nat.add_sub_cancel]

end

/-- In a run whose checks find each arming one at a time, the switch never has
killed more workers than it was armed. -/
theorem kills_le_arms [DecidableEq ι] [Pydantic] (task : ι → Task U) (table : Table) (env : V)
    (respond : (o : (U.sum Sandbox).Op) → D → V → (U.sum Sandbox).Ans o × V) (sched : List (ι × Fate × Glance D))
    (h : (staff task table env).Meets (office respond) Alone sched) :
    KillsWithinArms ((staff task table env).run (office respond) sched) :=
  (Pool.run_meets (I := Switched) (fun _ _ hp hx => hp.step hx) (staff_switched task table env) h).kills

/-! ## Two workers and one arming -/

/-- An operator, and two workers that settle different invoices. -/
def twoPayments : Fin 3 → Task ⟨Empty, fun _ => Unit⟩
  | 0 => .arm
  | 1 => .tool "payment" ⟨"job-1", "4"⟩ (fun _ => done []) fun _ => trivial
  | 2 => .tool "payment" ⟨"job-2", "4"⟩ (fun _ => done []) fun _ => trivial

/-- A step that is answered. -/
def answered (i : Fin 3) : Fin 3 × Fate × Glance Unit := (i, .answered, { reply := () })

def noSandbox (o : (Sig.sum ⟨Empty, fun _ => Unit⟩ Sandbox).Op) (_ : Unit) (_ : Unit) :
    (Sig.sum ⟨Empty, fun _ => Unit⟩ Sandbox).Ans o × Unit :=
  match o with
  | .inl o => o.elim
  | .inr .startSession => ("session", ())
  | .inr (.invoke _ _) => (none, ())
  | .inr (.stopSession _) => ((), ())

/-- Both checks read the switch before either of them disarms it. -/
theorem kill_twice :
    letI := digits
    ¬ KillsWithinArms ((staff twoPayments ∅ ()).run (office noSandbox) ([0, 1, 1, 1, 1, 2, 2, 2, 2, 1, 2].map answered)) := by
  intro h
  exact absurd (h {1, 2} (by decide +kernel)) (by decide +kernel)

/-- One after the other: the second check reads the switch once the first has disarmed it. -/
theorem kills_le_arms_twoPayments :
    letI := digits
    KillsWithinArms ((staff twoPayments ∅ ()).run (office noSandbox) ([0, 1, 1, 1, 1, 1, 2, 2, 2, 2, 2].map answered)) :=
  @kills_le_arms _ _ _ _ _ digits twoPayments ∅ () noSandbox _ (by decide +kernel)

end ControlPlane
