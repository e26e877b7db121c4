import ControlPlane.Activities.Provider

/-!
# The dispute activity

`app/activities/dispute.py`. An attempt files without asking the provider
first, so that what keeps a second attempt from filing again is the record
alone; every read of it is of the current table. Between a post and the completion of the record the call is in doubt
(`InDoubt`): an attempt that starts there files again
(`submitDisputeResponse_twice`); and only there
(`submitDisputeResponse_once`).
-/

namespace ControlPlane

open Effect Effect.Prog

structure DisputeResponseRequest where
  disputeId : String
  decision : String
  rationale : String
  amountUsd : PyFloat

def DisputeResponseRequest.ofKwargs [Pydantic] : Attrs → Except Raised DisputeResponseRequest :=
  construct ["dispute_id", "decision", "rationale", "amount_usd"] fun kw => do
    return {
      disputeId := ← field kw "dispute_id" asStr
      decision := ← field kw "decision" asStr
      rationale := ← field kw "rationale" asStr
      amountUsd := ← field kw "amount_usd" asFloat }

structure DisputeResponseResult where
  caseId : String
  disputeId : String
  decision : String
  deduplicated : Bool := false

/-- `result.model_dump(exclude={"deduplicated"})`. -/
def DisputeResponseResult.modelDump (r : DisputeResponseResult) : Attrs :=
  [("case_id", .str r.caseId), ("dispute_id", .str r.disputeId), ("decision", .str r.decision)]

/-- `DisputeResponseResult(**recorded, deduplicated=deduplicated)`. -/
def DisputeResponseResult.ofKwargs (recorded : Attrs) (deduplicated : Bool) : Except Raised DisputeResponseResult :=
  construct ["case_id", "dispute_id", "decision"] (fun kw => do
    return {
      caseId := ← field kw "case_id" asStr
      disputeId := ← field kw "dispute_id" asStr
      decision := ← field kw "decision" asStr
      deduplicated }) recorded

def disputePayload (request : DisputeResponseRequest) (idempotencyKey : String) : Attrs :=
  [("case_id", .str (caseId idempotencyKey)), ("dispute_id", .str request.disputeId),
    ("decision", .str request.decision), ("rationale", .str request.rationale),
    ("amount_usd", .float request.amountUsd)]

def disputeResult (request : DisputeResponseRequest) (idempotencyKey : String) : DisputeResponseResult :=
  { caseId := caseId idempotencyKey, disputeId := request.disputeId, decision := request.decision }

/-- Files the response with the provider. -/
def fileResponse (request : DisputeResponseRequest) (idempotencyKey : String) : Prog Http Raised Attrs := do
  let response ← httpPost "/dispute-responses" (disputePayload request idempotencyKey) idempotencyKey
  if 500 ≤ response.statusCode then
    fail (.applicationError ("dispute service unavailable: " ++ toString response.statusCode) none false)
  else if 400 ≤ response.statusCode then
    fail (.applicationError ("dispute response rejected: " ++ toString response.statusCode ++ " " ++ response.text)
      (some "DisputeResponseRejected") true)
  else return (disputeResult request idempotencyKey).modelDump

/-- Files the accept or contest decision. -/
def submitDisputeResponse (request : DisputeResponseRequest) (info : Info) : Activity Http DisputeResponseResult := do
  if request.decision ∉ ["accept", "contest"] then
    fail (.applicationError ("decision must be 'accept' or 'contest', got " ++ pyRepr request.decision)
      (some "InvalidDecision") true)
  else
    let (recorded, deduplicated) ← runOnce "dispute" info fun idempotencyKey =>
      provider (fileResponse request idempotencyKey)
    ofExcept (DisputeResponseResult.ofKwargs recorded deduplicated)

/-! ## Attempts in doubt -/

/-- A filing is recorded, and the call's record is not completed. -/
def InDoubt (key : String) (w : World) : Prop := filed key w ≠ 0 ∧ ¬ Completed key w.table

instance (key : String) (w : World) : Decidable (InDoubt key w) :=
  inferInstanceAs (Decidable (filed key w ≠ 0 ∧ ¬ Completed key w.table))

/-- What every attempt keeps; `n` is 0 until one files. -/
structure DisputeInv (request : DisputeResponseRequest) (key : String) (n : ℕ) (w : World) : Prop where
  recorded : Recorded key (disputeResult request key).modelDump w
  once : filed key w ≤ n

variable {request : DisputeResponseRequest} {k : String} {n : ℕ} {w w' : World}

theorem DisputeInv.others (x : Others k) (w : World) (h : DisputeInv request k n w) :
    DisputeInv request k n (x.act k w) :=
  ⟨h.recorded.others x, by rw [filed_others]; exact h.once⟩

theorem DisputeInv.call {seen : World → Choice → Table} {o : DynamoOp}
    (hp : Permitted k (disputeResult request k).modelDump o) (c : Choice) (w : World) (ans : o.Ans) (w' : World)
    (hI : DisputeInv request k n w) (hc : tableWorld seen o c w = .ok (ans, w')) : DisputeInv request k n w' :=
  ⟨hI.recorded.call hp hc, by rw [(tableWorld_provider hc).2]; exact hI.once⟩

theorem DisputeInv.post {path : String} {json : Attrs} {header : String} (c : Choice) (w : World)
    (ans : Option Response) (w' : World) (hI : DisputeInv request k n w)
    (hc : providerWorld (.post path json header) c w = .ok (ans, w')) : DisputeInv request k (n + 1) w' := by
  rcases providerWorld_post hc with rfl | rfl
  · exact ⟨hI.recorded, hI.once.trans (Nat.le_succ n)⟩
  · exact ⟨hI.recorded.record _ _, (filed_record _ _).trans (Nat.add_le_add_right hI.once 1)⟩

/-- Filing makes one filing more, at most. -/
theorem fileResponse_safe (hI : DisputeInv request k n w) :
    Safe (providerWorld.amid (Others.act k)) (DisputeInv request k (n + 1))
      (fun r w => DisputeInv request k (n + 1) w ∧ r = (disputeResult request k).modelDump)
      (fileResponse request k) w := by
  have post : ∀ c ans w', providerWorld.amid (Others.act k) (.post "/dispute-responses" (disputePayload request k) k)
      c w = .ok (ans, w') → DisputeInv request k (n + 1) w' := fun c ans w' hc => by
    obtain ⟨w₁, h₁, h⟩ := amid_call DisputeInv.others hI hc
    exact h₁.post _ _ _ _ h
  refine Safe.bind (httpPost_safe ⟨hI.recorded, hI.once.trans (Nat.le_succ n)⟩ (fun c w' hc => post c _ w' hc)
    fun c w' response hc => ?_)
  have h := post c _ w' hc
  split
  · exact h
  · split
    · exact h
    · exact ⟨h, rfl⟩

/-- An attempt that starts before anything is filed. -/
theorem runOnce_unfiled {info : Info} {seen : World → Choice → Table} (hs : ∀ w c, seen w c ∈ w.versions)
    (hI : DisputeInv request (key "dispute" info) 0 w) :
    Safe (world (key "dispute" info) seen) (DisputeInv request (key "dispute" info) 1)
      (fun _ w => DisputeInv request (key "dispute" info) 1 w ∧ True)
      (runOnce "dispute" info fun idempotencyKey => provider (fileResponse request idempotencyKey)) w := by
  have table : ∀ n o c w a w', Permitted (key "dispute" info) (disputeResult request (key "dispute" info)).modelDump o →
      DisputeInv request (key "dispute" info) n w →
      (tableWorld seen).amid (Others.act (key "dispute" info)) o c w = .ok (a, w') →
      DisputeInv request (key "dispute" info) n w' :=
    fun n o c w a w' hp h hc => amid_keeps DisputeInv.others (DisputeInv.call hp) h hc
  exact runOnce_safe (P := fun _ => True) (fun w h => ⟨h.recorded, h.once.trans (Nat.zero_le 1)⟩) (table 0) (table 1)
    (fun c w a w' h hc => amid_keeps DisputeInv.others (fun c w a w' h hc => by cases hc; exact h) h hc)
    (fun w h => read_safe DisputeInv.others (fun w h => h.recorded) hs (DisputeInv.call (o := .getItem _) trivial) h)
    (fun _ _ _ _ => trivial) (fun e w _ _ h => Safe.inr (Safe.inr (fileResponse_safe h))) trivial hI

/-! ## Attempts after the record is completed -/

/-- What an attempt that starts from a completed record keeps. -/
structure DisputeDone (request : DisputeResponseRequest) (key : String) (w : World) : Prop where
  inv : DisputeInv request key 1 w
  completed : Completed key w.table

theorem DisputeDone.others (x : Others k) (w : World) (h : DisputeDone request k w) :
    DisputeDone request k (x.act k w) := by
  refine ⟨h.inv.others x, ?_⟩
  obtain ⟨row, hr, hs⟩ := h.completed
  cases x with
  | write key hk r =>
    cases r with
    | some r => exact ⟨row, by rw [← hr]; exact AList.lookup_insert_ne (Ne.symm hk), hs⟩
    | none => exact ⟨row, by rw [← hr]; exact AList.lookup_erase_ne (Ne.symm hk), hs⟩
  | pay payment hp => exact ⟨row, hr, hs⟩
  | file filing hf => exact ⟨row, hr, hs⟩

theorem DisputeDone.call {seen : World → Choice → Table} {o : DynamoOp}
    (hp : Permitted k (disputeResult request k).modelDump o) (c : Choice) (w : World) (ans : o.Ans) (w' : World)
    (hI : DisputeDone request k w) (hc : tableWorld seen o c w = .ok (ans, w')) : DisputeDone request k w' := by
  refine ⟨hI.inv.call hp _ _ _ _ hc, ?_⟩
  obtain ⟨t, ht, rfl⟩ := tableWorld_ok hc
  exact permitted_completed hp ht hI.completed

/-- The record read is one to replay. -/
theorem DisputeDone.replays {row : Attrs} {record : IdempotencyRecord} (hI : DisputeDone request k w)
    (hr : w.table.lookup (idempotencyKey k) = some row) (ho : ofItem IdempotencyRecord.ofKwargs row = .ok record) :
    ∃ r, replayed (some record) = some r := by
  obtain ⟨row', hr', hs⟩ := hI.completed
  obtain rfl : row' = row := by rw [hr] at hr'; exact (Option.some.inj hr').symm
  cases hI.inv.recorded _ List.mem_cons_self row' hr with
  | pending status => exact absurd (hs.symm.trans status) (by simp)
  | completed status stored hst hres =>
    obtain ⟨kw, hk, e⟩ := replayed_of_completed status hst hres ho
    have hc : kw.lookup "case_id" = some (.str (caseId k)) := hk.str rfl
    cases kw with
    | nil => cases hc
    | cons kv rest => exact ⟨kv :: rest, e⟩

theorem DisputeDone.read (hI : DisputeDone request k w) :
    Safe ((tableWorld fun w _ => w.table).amid (Others.act k)) (DisputeDone request k)
      (fun e w => DisputeDone request k w ∧ ∃ r, replayed e = some r) (getIdempotencyRecord k) w := by
  refine getRow_safe (A := fun ans => ∃ w, DisputeDone request k w ∧ w.table.lookup (idempotencyKey k) = ans) hI
    (fun c ans w' hc => ?_) (fun ⟨w, h, hn⟩ => ?_) fun row record ⟨w, h, hr⟩ ho => h.replays hr ho
  · obtain ⟨w₁, h₁, h⟩ := amid_call DisputeDone.others hI hc
    refine ⟨h₁.call (o := .getItem _) trivial _ _ _ _ h, w₁, h₁, ?_⟩
    obtain ⟨t, ht, -⟩ := tableWorld_ok h
    cases ht
    rfl
  · obtain ⟨row, hr, -⟩ := h.completed
    rw [hn] at hr
    cases hr

/-- An attempt that starts from a completed record files nothing. -/
theorem runOnce_done {info : Info} (hI : DisputeDone request (key "dispute" info) w) :
    Safe (world (key "dispute" info) fun w _ => w.table) (DisputeDone request (key "dispute" info))
      (fun _ w => DisputeDone request (key "dispute" info) w ∧ True)
      (runOnce "dispute" info fun idempotencyKey => provider (fileResponse request idempotencyKey)) w := by
  have table : ∀ o c w a w', Permitted (key "dispute" info) (disputeResult request (key "dispute" info)).modelDump o →
      DisputeDone request (key "dispute" info) w →
      (tableWorld fun w _ => w.table).amid (Others.act (key "dispute" info)) o c w = .ok (a, w') →
      DisputeDone request (key "dispute" info) w' :=
    fun o c w a w' hp h hc => amid_keeps DisputeDone.others (DisputeDone.call hp) h hc
  refine runOnce_safe (P := fun _ => True) (fun w h => h) table table
    (fun c w a w' h hc => amid_keeps DisputeDone.others (fun c w a w' h hc => by cases hc; exact h) h hc)
    (fun w h => h.read) (fun _ _ _ _ => trivial) (fun e w he hn h => ?_) trivial hI
  obtain ⟨r, hr⟩ := he
  rw [hr] at hn
  cases hn

/-! ## At most one filing -/

theorem submitDisputeResponse_safe {info : Info} (hI : DisputeInv request (key "dispute" info) 1 w)
    (hd : ¬ InDoubt (key "dispute" info) w) :
    Safe (world (key "dispute" info) fun w _ => w.table) (DisputeInv request (key "dispute" info) 1)
      (fun _ w => DisputeInv request (key "dispute" info) 1 w ∧ True) (submitDisputeResponse request info) w := by
  unfold submitDisputeResponse
  split
  · exact hI
  · refine Safe.bind (Safe.mono (Q := fun _ w => DisputeInv request (key "dispute" info) 1 w ∧ True) ?_
      fun a w ha => Safe.ofExcept ha.1 fun _ _ => ha)
    by_cases hn : filed (key "dispute" info) w = 0
    · exact runOnce_unfiled (fun w _ => List.mem_cons_self) ⟨hI.recorded, Nat.le_of_eq hn⟩
    · have hc : Completed (key "dispute" info) w.table := not_not.mp fun h => hd ⟨hn, h⟩
      exact ((runOnce_done ⟨hI, hc⟩).weaken fun w h => h.inv).mono fun a w h => ⟨h.1.inv, trivial⟩

/-- Over any sequence of attempts at one call, each of which may stop or
raise anywhere but none of which starts in doubt, at most one filing is
recorded. -/
theorem submitDisputeResponse_once (request : DisputeResponseRequest) (info : Info) (w : World)
    (fresh : ∀ t ∈ w.versions, t.lookup (idempotencyKey (key "dispute" info)) = none)
    (unfiled : filed (key "dispute" info) w = 0)
    (scripts : List (List (List (Others (key "dispute" info)) × Choice)))
    (clear : Starts (world (key "dispute" info) fun w _ => w.table) (submitDisputeResponse request info)
      (fun w => ¬ InDoubt (key "dispute" info) w) scripts w) :
    filed (key "dispute" info) (attempts (world (key "dispute" info) fun w _ => w.table)
      (submitDisputeResponse request info) scripts w).2 ≤ 1 := by
  have hI : DisputeInv request (key "dispute" info) 1 w :=
    ⟨fun t ht row hr => absurd hr (by simp [fresh t ht]), by rw [unfiled]; exact Nat.zero_le 1⟩
  exact (attempts_safe (fun w h hd => submitDisputeResponse_safe h hd) hI clear).1.once

/-- An attempt that dies before its post, one that files, and one that
replays. -/
theorem submitDisputeResponse_once_replayed :
    filed (key "dispute" ⟨"job", "10"⟩) (attempts (world (key "dispute" ⟨"job", "10"⟩) fun w _ => w.table)
      (submitDisputeResponse ⟨"D-1", "contest", "delivered", .fin (.ofInt 120 (by decide))⟩ ⟨"job", "10"⟩)
      [List.replicate 3 ([], {}), List.replicate 9 ([], {}), List.replicate 9 ([], {})] ⟨∅, [], [], []⟩).2 ≤ 1 :=
  submitDisputeResponse_once _ _ _ (fun t ht => by cases List.mem_singleton.mp ht; rfl) (by decide) _
    ⟨by decide +kernel, by decide +kernel, by decide +kernel, trivial⟩

/-- Two attempts, the first of which dies after its post, file twice: the
second one finds the record pending. -/
theorem submitDisputeResponse_twice :
    filed (key "dispute" ⟨"job", "10"⟩) (attempts (world (key "dispute" ⟨"job", "10"⟩) fun w _ => w.table)
      (submitDisputeResponse ⟨"D-1", "contest", "delivered", .fin (.ofInt 120 (by decide))⟩ ⟨"job", "10"⟩)
      [List.replicate 4 ([], {}), List.replicate 9 ([], {})] ⟨∅, [], [], []⟩).2 = 2 := by decide +kernel

end ControlPlane
