import ControlPlane.Activities.Idempotency

/-!
# The world of the consequential activities

The table, whose earlier versions a read may answer with, and the provider of
`mocks/payment-service.json`, which keeps every POST it records and dedupes
nothing. What is not decided by the code is a `Choice` of each call; what
other jobs do between two calls is `Others`: they write other rows, and pay
or file under other ids.

`Recorded.call`, `Recorded.others`: the table calls of an attempt, and others,
keep its record's rows as `RecordRow` says, in every version of the table.
-/

namespace ControlPlane

open Effect Effect.Prog

/-! ## Requests to the provider -/

structure Response where
  statusCode : ℕ
  text : String
  /-- The items of the body, a JSON list. -/
  items : List Attrs

inductive HttpOp
  | get (path : String)
  | post (path : String) (json : Attrs) (idempotencyKey : String)

/-- The answer is none where the request itself raises: a timeout, a dropped
connection. -/
def Http : Sig := ⟨HttpOp, fun _ => Option Response⟩

def httpSend (o : HttpOp) : Prog Http Raised Response :=
  call (S := Http) o fun response => response.elim (fail .requestError) done

def httpGet (path : String) : Prog Http Raised Response := httpSend (.get path)

/-- Whether JSON has a value of a posted body, which holds no list and no dict:
of the floats it has the finite ones. -/
def jsonCompliant : Value → Bool
  | .float (.fin _) => true
  | .float _ => false
  | _ => true

/-- httpx writes the body before it sends anything. -/
def httpPost (path : String) (json : Attrs) (idempotencyKey : String) : Prog Http Raised Response :=
  if json.all fun kv => jsonCompliant kv.2 then httpSend (.post path json idempotencyKey)
  else fail (.valueError "Out of range float values are not JSON compliant")

/-- `response.raise_for_status()`. -/
def Response.raiseForStatus (response : Response) : Prog Http Raised Unit :=
  if response.statusCode / 100 = 2 then return else fail .requestError

/-- `key.replace(':', '-')`. -/
def dashes (key : String) : String := String.ofList (key.toList.map fun c => if c = ':' then '-' else c)

/-- The id of a call's payment. -/
def confirmationId (idempotencyKey : String) : String := "conf-" ++ dashes idempotencyKey

/-- The id of a call's filing. -/
def caseId (idempotencyKey : String) : String := "case-" ++ dashes idempotencyKey

/-- Whether a payment carries a confirmation id. -/
def confirms (id : String) (payment : Attrs) : Bool := (getItem payment "confirmation_id").eqStr id

/-- Whether a filing carries a case id. -/
def files (id : String) (filing : Attrs) : Bool := (getItem filing "case_id").eqStr id

/-! ## The world -/

structure World where
  table : Table
  earlier : List Table
  payments : List Attrs
  filings : List Attrs

def World.versions (w : World) : List Table := w.table :: w.earlier

/-- What the code does not decide of a call. -/
structure Choice where
  /-- The earlier version a read sees; the current one if none. -/
  version : Option ℕ := none
  now : String := "2026-09-02T14:02:00+00:00"
  answered : Bool := true
  statusCode : ℕ := 200
  text : String := ""
  /-- Whether the provider records the POST. -/
  recorded : Bool := true

def World.seen (w : World) (c : Choice) : Table := (c.version >>= fun n => w.earlier[n]?).getD w.table

/-- The provider's lists after it recorded a POST. -/
def World.record (w : World) (path : String) (json : Attrs) : World :=
  if path = "/payments" then { w with payments := w.payments ++ [json] }
  else if path = "/dispute-responses" then { w with filings := w.filings ++ [json] }
  else w

/-- The items `GET path` lists. -/
def World.listed (w : World) (path : String) : List Attrs :=
  if path = "/payments" then w.payments else if path = "/dispute-responses" then w.filings else []

/-- The table, whose reads see the version `seen` picks. -/
def tableWorld (seen : World → Choice → Table) : Handler Dynamo Raised Choice World := fun o c w =>
  match dynamo id (seen w c) o w.table with
  | .error e => .error e
  | .ok (a, t) => .ok (a, { w with table := t, earlier := w.table :: w.earlier })

def clockWorld : Handler Clock Raised Choice World := fun _ c w => .ok (c.now, w)

def Choice.response (c : Choice) (items : List Attrs) : Option Response :=
  if c.answered then some ⟨c.statusCode, c.text, items⟩ else none

def providerWorld : Handler Http Raised Choice World
  | .get path, c, w => .ok (c.response (w.listed path), w)
  | .post path json _, c, w => .ok (c.response [], if c.recorded then w.record path json else w)

/-- What other jobs do: nothing to the record of the key, nor under its ids. -/
inductive Others (key : String)
  | write (k : Key) (hk : k ≠ idempotencyKey key) (row : Option Attrs)
  | pay (payment : Attrs) (hp : confirms (confirmationId key) payment = false)
  | file (filing : Attrs) (hf : files (caseId key) filing = false)

def Others.act (key : String) : Others key → World → World
  | write k _ (some row), w => { w with table := w.table.insert k row, earlier := w.table :: w.earlier }
  | write k _ none, w => { w with table := w.table.erase k, earlier := w.table :: w.earlier }
  | pay payment _, w => { w with payments := w.payments ++ [payment] }
  | file filing _, w => { w with filings := w.filings ++ [filing] }

/-- The world of a call's attempts, amid the doings of others. -/
def world (key : String) (seen : World → Choice → Table) :
    Handler (Dynamo.sum (Clock.sum Http)) Raised (List (Others key) × Choice) World :=
  ((tableWorld seen).amid (Others.act key)).sum
    ((clockWorld.amid (Others.act key)).sum (providerWorld.amid (Others.act key)))

theorem httpSend_safe {C W : Type} {h : Handler Http Raised C W} {I : W → Prop} {Q : Response → W → Prop}
    {o : HttpOp} {w : W} (hI : I w) (hnone : ∀ c w', h o c w = .ok (none, w') → I w')
    (hsome : ∀ c w' response, h o c w = .ok (some response, w') → Q response w') :
    Safe h I Q (httpSend o) w := by
  refine ⟨hI, fun c ans w' hc => ?_⟩
  cases ans with
  | none => exact hnone c w' hc
  | some response => exact hsome c w' response hc

/-- What holds of a post that is sent, and before it, holds of one. -/
theorem httpPost_safe {C W : Type} {h : Handler Http Raised C W} {I : W → Prop} {Q : Response → W → Prop}
    {path idempotencyKey : String} {json : Attrs} {w : W} (hI : I w)
    (hnone : ∀ c w', h (.post path json idempotencyKey) c w = .ok (none, w') → I w')
    (hsome : ∀ c w' response, h (.post path json idempotencyKey) c w = .ok (some response, w') → Q response w') :
    Safe h I Q (httpPost path json idempotencyKey) w := by
  unfold httpPost
  split
  · exact httpSend_safe hI hnone hsome
  · exact hI

theorem raiseForStatus_safe {C W : Type} {h : Handler Http Raised C W} {I : W → Prop} {Q : Unit → W → Prop}
    {response : Response} {w : W} (hI : I w) (hQ : Q () w) : Safe h I Q response.raiseForStatus w := by
  unfold Response.raiseForStatus
  split
  · exact hQ
  · exact hI

theorem providerWorld_get {path : String} {c : Choice} {w w' : World} {ans : Option Response}
    (h : providerWorld (.get path) c w = .ok (ans, w')) :
    w' = w ∧ ∀ response, ans = some response → response.items = w.listed path := by
  obtain ⟨ha, rfl⟩ := Prod.mk.inj (Except.ok.inj h)
  refine ⟨rfl, fun response hr => ?_⟩
  rw [hr, Choice.response] at ha
  split at ha <;> cases ha
  rfl

theorem providerWorld_post {path : String} {json : Attrs} {idempotencyKey : String} {c : Choice} {w w' : World}
    {ans : Option Response} (h : providerWorld (.post path json idempotencyKey) c w = .ok (ans, w')) :
    w' = w ∨ w' = w.record path json := by
  obtain ⟨-, rfl⟩ := Prod.mk.inj (Except.ok.inj h)
  split
  · exact .inr rfl
  · exact .inl rfl

/-! ## What a call's record can be -/

/-- Every version of the table holds no record of the call, or one as
`RecordRow` says. -/
def Recorded (key : String) (result : Attrs) (w : World) : Prop :=
  ∀ t ∈ w.versions, ∀ row, t.lookup (idempotencyKey key) = some row → RecordRow result row

variable {key : String} {result : Attrs} {w w' : World}

theorem Recorded.push (h : Recorded key result w) {t : Table} {ps fs : List Attrs}
    (ht : ∀ row, t.lookup (idempotencyKey key) = some row →
      w.table.lookup (idempotencyKey key) = some row ∨ RecordRow result row) :
    Recorded key result ⟨t, w.table :: w.earlier, ps, fs⟩ := by
  intro t' ht' row hr
  rcases List.mem_cons.mp ht' with rfl | ht'
  · exact (ht row hr).elim (h _ List.mem_cons_self row) id
  · exact h t' ht' row hr

theorem Recorded.others (h : Recorded key result w) (x : Others key) : Recorded key result (x.act key w) := by
  cases x with
  | write k hk row =>
    cases row with
    | some r => exact h.push fun row hr => .inl (by rwa [AList.lookup_insert_ne (Ne.symm hk)] at hr)
    | none => exact h.push fun row hr => .inl (by rwa [AList.lookup_erase_ne (Ne.symm hk)] at hr)
  | pay payment hp => exact h
  | file filing hf => exact h

/-- What a table call does to the world. -/
theorem tableWorld_ok {seen : World → Choice → Table} {o : DynamoOp} {c : Choice} {ans : o.Ans}
    (h : tableWorld seen o c w = .ok (ans, w')) : ∃ t, dynamo id (seen w c) o w.table = .ok (ans, t) ∧
      w' = { w with table := t, earlier := w.table :: w.earlier } := by
  simp only [tableWorld] at h
  split at h
  · cases h
  · rename_i a t ht
    cases h
    exact ⟨t, ht, rfl⟩

theorem Recorded.call (h : Recorded key result w) {seen : World → Choice → Table} {o : DynamoOp}
    (hp : Permitted key result o) {c : Choice} {ans : o.Ans} (hc : tableWorld seen o c w = .ok (ans, w')) :
    Recorded key result w' := by
  obtain ⟨t, ht, rfl⟩ := tableWorld_ok hc
  exact h.push fun row hr => permitted_keeps hp ht hr

theorem seen_mem (w : World) (c : Choice) : w.seen c ∈ w.versions := by
  unfold World.seen World.versions
  cases he : c.version >>= fun n => w.earlier[n]? with
  | none => exact List.mem_cons_self
  | some t =>
    obtain ⟨n, -, hn⟩ := Option.bind_eq_some_iff.mp he
    exact List.mem_cons_of_mem _ (List.mem_of_getElem? hn)

/-- A read of the record answers none, or one of the rows it can be. -/
theorem Recorded.read (h : Recorded key result w) {seen : World → Choice → Table}
    (hs : ∀ w c, seen w c ∈ w.versions) {c : Choice} {ans : Option Attrs}
    (hc : tableWorld seen (.getItem (idempotencyKey key)) c w = .ok (ans, w')) {row : Attrs}
    (ha : ans = some row) : RecordRow result row := by
  obtain ⟨t, ht, -⟩ := tableWorld_ok hc
  cases ht
  exact h _ (hs w c) row ha

/-- The record read at the start of an attempt replays its result, if any. -/
theorem read_safe {I : World → Prop} (others : ∀ (x : Others key) w, I w → I (x.act key w))
    (recorded : ∀ w, I w → Recorded key result w) {seen : World → Choice → Table}
    (hs : ∀ w c, seen w c ∈ w.versions)
    (call : ∀ c w ans w', I w → tableWorld seen (.getItem (idempotencyKey key)) c w = .ok (ans, w') → I w')
    (hI : I w) :
    Safe ((tableWorld seen).amid (Others.act key)) I
      (fun e w => I w ∧ ∀ r, replayed e = some r → Restored result r) (getIdempotencyRecord key) w := by
  refine getRow_safe (A := fun ans => ∀ row, ans = some row → RecordRow result row) hI
    (fun c ans w' hc => ?_) (fun _ r hr => nomatch hr) fun row record hrow ho r hr => (hrow row rfl).replayed ho hr
  obtain ⟨w₁, h₁, h⟩ := amid_call others hI hc
  exact ⟨call _ _ _ _ h₁ h, fun row => (recorded w₁ h₁).read hs h⟩

/-! ## What the provider has of a call -/

/-- How many payments carry the confirmation id of a key. -/
def paid (key : String) (w : World) : ℕ := w.payments.countP (confirms (confirmationId key))

/-- How many filings carry the case id of a key. -/
def filed (key : String) (w : World) : ℕ := w.filings.countP (files (caseId key))

theorem paid_others (x : Others key) (w : World) : paid key (x.act key w) = paid key w := by
  cases x with
  | write k hk row => cases row <;> rfl
  | pay payment hp => simp [paid, Others.act, hp]
  | file filing hf => rfl

theorem filed_others (x : Others key) (w : World) : filed key (x.act key w) = filed key w := by
  cases x with
  | write k hk row => cases row <;> rfl
  | pay payment hp => rfl
  | file filing hf => simp [filed, Others.act, hf]

/-- A table call pays and files nothing. -/
theorem tableWorld_provider {seen : World → Choice → Table} {o : DynamoOp} {c : Choice} {ans : o.Ans}
    (h : tableWorld seen o c w = .ok (ans, w')) : paid key w' = paid key w ∧ filed key w' = filed key w := by
  obtain ⟨t, -, rfl⟩ := tableWorld_ok h
  exact ⟨rfl, rfl⟩

/-- A post is one more, at most. -/
theorem paid_record (path : String) (json : Attrs) : paid key (w.record path json) ≤ paid key w + 1 := by
  have : [json].countP (confirms (confirmationId key)) ≤ 1 := List.countP_le_length
  unfold World.record
  split
  · simp only [paid, List.countP_append]; omega
  · split <;> simp [paid]

theorem filed_record (path : String) (json : Attrs) : filed key (w.record path json) ≤ filed key w + 1 := by
  have : [json].countP (files (caseId key)) ≤ 1 := List.countP_le_length
  unfold World.record
  split
  · simp [filed]
  · split
    · simp only [filed, List.countP_append]; omega
    · simp [filed]

theorem record_versions (path : String) (json : Attrs) : (w.record path json).versions = w.versions := by
  unfold World.record
  split
  · rfl
  · split <;> rfl

theorem Recorded.record (h : Recorded key result w) (path : String) (json : Attrs) :
    Recorded key result (w.record path json) := by
  unfold Recorded
  rw [record_versions]
  exact h

end ControlPlane
