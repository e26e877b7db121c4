import ControlPlane.Registry.ReadBack

/-!
# Once-only side effects

`app/activities/idempotency.py`: the key of a scheduled call (`key`), the
armed kill switch (`maybeKill`), and `runOnce`, which replays a completed
record, claims the key, performs, and completes the record. An activity calls
the table, the clock, and the operations `T` of what it talks to; a killed
process is one that raises `exit`, which nothing catches.

* `RecordRow`: what a call's record can be, pending or completed with the
  call's result.
* `Permitted`: the table calls of `runOnce`, which keep it so
  (`permitted_keeps`).
* `runOnce_safe`: what every attempt keeps, from what its reads, its
  performing and its replays give.
-/

namespace ControlPlane

open Effect Effect.Prog

variable {T : Sig} {α : Type}

/-- The clock: `datetime.now(UTC).isoformat()`. -/
def Clock : Sig := ⟨Unit, fun _ => String⟩

abbrev Activity (T : Sig) (α : Type) := Prog (Dynamo.sum (Clock.sum T)) Raised α

def repo (p : Repo α) : Activity T α := p.inl

def now : Activity T String := inr (inl (op ()))

def provider (p : Prog T Raised α) : Activity T α := inr (inr p)

/-- What `activity.info()` says of the scheduled call; it is the same for
every attempt. -/
structure Info where
  workflowId : String
  activityId : String

def key (namePrefix : String) (info : Info) : String :=
  namePrefix ++ ":" ++ info.workflowId ++ ":" ++ info.activityId

/-- Kills the process if the switch is armed, and disarms it first. -/
def maybeKill : Activity T Unit := do
  if (← repo getKillSwitch).armed then
    repo (putKillSwitch { armed := false })
    fail (.exit 1)

/-- The result a record replays: it is completed, and its result not empty. -/
def replayed (existing : Option IdempotencyRecord) : Option Attrs :=
  existing.bind fun record =>
    if record.status = "completed" then record.result.filter fun result => !result.isEmpty else none

/-- Performs a side effect once: the result, and whether it was replayed. -/
def runOnce (namePrefix : String) (info : Info) (perform : String → Activity T Attrs) :
    Activity T (Attrs × Bool) := do
  let idempotencyKey := key namePrefix info
  let existing ← repo (getIdempotencyRecord idempotencyKey)
  match replayed existing with
  | some result => return (result, true)
  | none =>
    let createdAt ← now
    let claimed ← repo (claimIdempotencyKey idempotencyKey createdAt)
    if !claimed && existing.isNone then
      -- lost a race with an attempt that has not finished yet
      fail (.applicationError (namePrefix ++ " already in flight for this key") none false)
    else
      let result ← perform idempotencyKey
      maybeKill
      repo (completeIdempotencyRecord idempotencyKey result)
      return (result, false)

/-! ## The rows of a call's record -/

/-- The rows a call's record goes through. -/
inductive RecordRow (result row : Attrs) : Prop
  | pending (status : row.lookup "status" = some (.str "pending"))
  | completed (status : row.lookup "status" = some (.str "completed")) (stored : Attrs)
      (hs : serializeDict (toDecimalDict result) = some stored) (hr : row.lookup "result" = some (.dict stored))

variable {result row : Attrs} {record : IdempotencyRecord}

theorem replayed_of_pending (h : row.lookup "status" = some (.str "pending"))
    (ho : ofItem IdempotencyRecord.ofKwargs row = .ok record) : replayed (some record) = none := by
  obtain ⟨kw, hf, -, hs, -⟩ := record_ofItem ho
  rw [fromDecimalDict_lookup hf, h] at hs
  simp only [Option.bind_eq_bind, Option.bind_some, fromDecimal, Option.some.injEq, Value.str.injEq] at hs
  simp [replayed, ← hs]

theorem replayed_of_completed {stored : Attrs} (hst : row.lookup "status" = some (.str "completed"))
    (hs : serializeDict (toDecimalDict result) = some stored) (hr : row.lookup "result" = some (.dict stored))
    (ho : ofItem IdempotencyRecord.ofKwargs row = .ok record) :
    ∃ kw, Restored result kw ∧ replayed (some record) = if kw.isEmpty then none else some kw := by
  obtain ⟨kw, hf, -, hs', hr', -⟩ := record_ofItem ho
  rw [fromDecimalDict_lookup hf, hst] at hs'
  simp only [Option.bind_eq_bind, Option.bind_some, fromDecimal, Option.some.injEq, Value.str.injEq] at hs'
  have hk : kw.lookup "result" = (fromDecimalDict stored).map .dict := by
    rw [fromDecimalDict_lookup hf, hr]
    rfl
  cases hd : fromDecimalDict stored with
  | none =>
    have := fromDecimalDict_isSome hf "result"
    rw [hk, hr, hd] at this
    cases this
  | some r =>
    rw [hd] at hk
    simp only [fieldD, hk, Option.map_some, asOption, asDict, Option.some.injEq] at hr'
    refine ⟨r, ⟨stored, hs, hd⟩, ?_⟩
    simp only [replayed, Option.bind_some, ← hs', if_true, ← hr', Option.filter_some]
    cases r <;> rfl

/-- Whatever a call's record replays is its result, read back. -/
theorem RecordRow.replayed (h : RecordRow result row) (ho : ofItem IdempotencyRecord.ofKwargs row = .ok record)
    {r : Attrs} (hr : ControlPlane.replayed (some record) = some r) : Restored result r := by
  cases h with
  | pending status => rw [replayed_of_pending status ho] at hr; cases hr
  | completed status stored hs h =>
    obtain ⟨kw, hk, e⟩ := replayed_of_completed status hs h ho
    rw [e] at hr
    split at hr
    · cases hr
    · cases hr; exact hk

/-- A claim's row is pending. -/
theorem RecordRow.claim {key createdAt : String} {ttl : ℤ}
    (h : serializeDict (claimItem key createdAt ttl) = some row) : RecordRow result row :=
  .pending (by rw [serializeDict_lookup h]; rfl)

/-- A completion leaves a completed row, whatever was there. -/
theorem RecordRow.complete {set old : Attrs} (h : serializeDict (completion result) = some set) :
    RecordRow result (setAttrs set old) := by
  have hs := serializeDict_lookup h "status"
  have hr := serializeDict_lookup h "result"
  have hi := serializeDict_isSome h "result"
  cases hd : serializeDict (toDecimalDict result) with
  | none =>
    rw [hr] at hi
    simp [completion, List.lookup_cons, toDecimal, serialize, hd] at hi
  | some stored =>
    refine .completed ?_ stored hd ?_
    · rw [setAttrs_lookup, hs]; rfl
    · rw [setAttrs_lookup, hr]
      simp [completion, List.lookup_cons, toDecimal, serialize, hd]


/-! ## The table calls of an attempt -/

/-- On the call's own row, only claims and completions with its result. -/
def Permitted (key : String) (result : Attrs) : DynamoOp → Prop
  | .putItem k attrs ifAbsent =>
    k = idempotencyKey key → ifAbsent = true ∧ ∃ createdAt ttl, attrs = claimItem key createdAt ttl
  | .updateItem k set _ => k = idempotencyKey key → set = completion result
  | .deleteItem k => k ≠ idempotencyKey key
  | _ => True

theorem permitted_keeps {page : List Row → List Row} {seen t t' : Table} {key : String} {o : DynamoOp}
    {ans : o.Ans} (hp : Permitted key result o) (h : dynamo page seen o t = .ok (ans, t')) {row : Attrs}
    (hr : t'.lookup (idempotencyKey key) = some row) :
    t.lookup (idempotencyKey key) = some row ∨ RecordRow result row := by
  by_cases hw : o.writes = some (idempotencyKey key)
  · cases o with
    | putItem k attrs ifAbsent =>
      cases hw
      obtain ⟨-, createdAt, ttl, rfl⟩ := hp rfl
      obtain ⟨row', hs, ⟨-, rfl, -⟩ | ⟨-, rfl, -⟩⟩ := dynamo_put h
      · exact .inl hr
      · rw [AList.lookup_insert] at hr
        cases hr
        exact .inr (.claim hs)
    | updateItem k set ifPresent =>
      cases hw
      obtain ⟨set', hs, ⟨-, rfl, -⟩ | ⟨-, rfl, -⟩⟩ := dynamo_update h
      · exact .inl hr
      · rw [AList.lookup_insert] at hr
        cases hr
        rw [hp rfl] at hs
        exact .inr (.complete hs)
    | deleteItem k => cases hw; exact absurd rfl hp
    | _ => cases hw
  · rw [dynamo_frame h hw] at hr
    exact .inl hr

/-- The table holds a completed record of the key. -/
def Completed (key : String) (t : Table) : Prop :=
  ∃ row, t.lookup (idempotencyKey key) = some row ∧ row.lookup "status" = some (.str "completed")

instance (key : String) (t : Table) : Decidable (Completed key t) :=
  decidable_of_iff (((t.lookup (idempotencyKey key)).any fun row =>
    (row.lookup "status").any (Value.eqStr "completed")) = true) <| by
      simp [Completed, Option.any_eq_true, Value.eqStr_iff]

/-- A completed record stays completed. -/
theorem permitted_completed {page : List Row → List Row} {seen t t' : Table} {key : String} {o : DynamoOp}
    {ans : o.Ans} (hp : Permitted key result o) (h : dynamo page seen o t = .ok (ans, t'))
    (hc : Completed key t) : Completed key t' := by
  obtain ⟨row, hr, hs⟩ := hc
  by_cases hw : o.writes = some (idempotencyKey key)
  · cases o with
    | putItem k attrs ifAbsent =>
      cases hw
      obtain ⟨row', -, ⟨-, rfl, -⟩ | ⟨-, -, hn⟩⟩ := dynamo_put h
      · exact ⟨row, hr, hs⟩
      · rw [hn (hp rfl).1] at hr
        cases hr
    | updateItem k set ifPresent =>
      cases hw
      obtain ⟨set', hs', ⟨-, rfl, -⟩ | ⟨-, rfl, -⟩⟩ := dynamo_update h
      · exact ⟨row, hr, hs⟩
      · refine ⟨_, AList.lookup_insert _, ?_⟩
        rw [hp rfl] at hs'
        rw [setAttrs_lookup, serializeDict_lookup hs']
        rfl
    | deleteItem k => cases hw; exact absurd rfl hp
    | _ => cases hw
  · exact ⟨row, by rw [dynamo_frame h hw]; exact hr, hs⟩

theorem ne_of_head {s t : String} (h : s.toList.head? ≠ t.toList.head?) : s ≠ t := fun e => h (by rw [e])

theorem killSwitchKey_ne (key : String) : killSwitchKey ≠ idempotencyKey key := fun e =>
  ne_of_head (by simp [killSwitchKey, idempotencyKey, String.toList_append]) (congrArg Key.pk e)

theorem calls_claim (key createdAt : String) (result : Attrs) :
    Calls (Permitted key result) (claimIdempotencyKey key createdAt) := by
  unfold claimIdempotencyKey
  cases expiresAt createdAt with
  | error e => trivial
  | ok ttl => exact ⟨fun _ => ⟨rfl, _, _, rfl⟩, fun _ => trivial⟩

theorem calls_complete (key : String) (result : Attrs) :
    Calls (Permitted key result) (completeIdempotencyRecord key result) :=
  ⟨fun _ => rfl, fun _ => trivial⟩

theorem calls_getKillSwitch (key : String) (result : Attrs) : Calls (Permitted key result) getKillSwitch :=
  (calls_getRow trivial _).bind fun _ => trivial

theorem calls_putKillSwitch (key : String) (result : Attrs) (setting : KillSwitch) :
    Calls (Permitted key result) (putKillSwitch setting) :=
  ⟨fun e => absurd e (killSwitchKey_ne key), fun _ => trivial⟩

/-! ## What an attempt keeps -/

section

variable {C W : Type} {ht : Handler Dynamo Raised C W} {hc : Handler Clock Raised C W} {hp : Handler T Raised C W}
variable {I : W → Prop} {namePrefix : String} {info : Info}

/-- Reading a row gives what the table's answers give. -/
theorem getRow_safe {ofItem : Attrs → Except Raised α} {k : Key} {A : Option Attrs → Prop}
    {E : Option α → Prop} {w : W} (hI : I w)
    (hrow : ∀ c ans w', ht (.getItem k) c w = .ok (ans, w') → I w' ∧ A ans) (hnone : A none → E none)
    (hsome : ∀ row a, A (some row) → ofItem row = .ok a → E (some a)) :
    Safe ht I (fun e w => I w ∧ E e) (getRow k ofItem) w := by
  rw [getRow_eq]
  refine ⟨hI, fun c ans w' h => ?_⟩
  obtain ⟨hI', ho⟩ := hrow c ans w' h
  cases ans with
  | none => exact ⟨hI', hnone ho⟩
  | some row => exact Safe.bind (Safe.ofExcept hI' fun a ha => ⟨hI', hsome row a ho ha⟩)

theorem maybeKill_safe (htable : ∀ o c w a w', Permitted (key namePrefix info) result o → I w →
    ht o c w = .ok (a, w') → I w') {w : W} (hI : I w) :
    Safe (ht.sum (hc.sum hp)) I (fun _ w => I w) maybeKill w := by
  refine Safe.bind ((Safe.of_calls htable (calls_getKillSwitch _ _) hI).inl.mono fun s w hw => ?_)
  split
  · exact Safe.bind ((Safe.of_calls htable (calls_putKillSwitch _ _ _) hw).inl.mono fun _ w hw => hw)
  · exact hw

/-- An attempt keeps `J`, and `I` until it performs, if its table calls and
its clock do, and performing takes `I` to `J` where the record read is not
one to replay. -/
theorem runOnce_safe {J : W → Prop} {perform : String → Activity T Attrs} {E : Option IdempotencyRecord → Prop}
    {P : Attrs × Bool → Prop} (hIJ : ∀ w, I w → J w)
    (htable : ∀ o c w a w', Permitted (key namePrefix info) result o → I w → ht o c w = .ok (a, w') → I w')
    (htable' : ∀ o c w a w', Permitted (key namePrefix info) result o → J w → ht o c w = .ok (a, w') → J w')
    (hclock : ∀ c w a w', I w → hc () c w = .ok (a, w') → I w')
    (hread : ∀ w, I w → Safe ht I (fun e w => I w ∧ E e) (getIdempotencyRecord (key namePrefix info)) w)
    (hreplay : ∀ e r, E e → replayed e = some r → P (r, true))
    (hperform : ∀ e w, E e → replayed e = none → I w →
      Safe (ht.sum (hc.sum hp)) J (fun r w => J w ∧ r = result) (perform (key namePrefix info)) w)
    (hfresh : P (result, false)) {w : W} (hI : I w) :
    Safe (ht.sum (hc.sum hp)) J (fun a w => J w ∧ P a) (runOnce namePrefix info perform) w := by
  refine Safe.bind (((hread w hI).inl.weaken hIJ).mono fun existing w hw => ?_)
  split
  · rename_i r hr
    exact ⟨hIJ w hw.1, hreplay _ _ hw.2 hr⟩
  · rename_i hn
    have hnow : Safe (ht.sum (hc.sum hp)) I (fun _ w => I w) now w := ⟨hw.1, fun c a w' => hclock c w a w' hw.1⟩
    refine Safe.bind ((hnow.weaken hIJ).mono fun createdAt w₁ h₁ => ?_)
    refine Safe.bind (((Safe.of_calls htable (calls_claim _ _ _) h₁).inl.weaken hIJ).mono fun claimed w₂ h₂ => ?_)
    split
    · exact hIJ w₂ h₂
    · refine Safe.bind ((hperform _ w₂ hw.2 hn h₂).mono fun r w₃ h₃ => ?_)
      obtain ⟨h₃, rfl⟩ := h₃
      refine Safe.bind ((maybeKill_safe htable' h₃).mono fun _ w₄ h₄ => ?_)
      exact Safe.bind ((Safe.of_calls htable' (calls_complete _ _) h₄).inl.mono fun _ w₅ h₅ => ⟨h₅, hfresh⟩)

end

end ControlPlane
