import ControlPlane.Activities.Provider

/-!
# The payment activity

`app/activities/payment.py`. An attempt asks the provider for a payment with
the call's `confirmationId` before it posts one, so that an attempt that
finds the record pending, stale or missing posts nothing a second time.

`issuePayment_once`: over any sequence of attempts at one call, each stopping
anywhere, the provider has at most one payment with the call's
`confirmationId`, and the attempts that return agree.
-/

namespace ControlPlane

open Effect Effect.Prog

structure PaymentRequest where
  invoiceId : String
  amountUsd : PyFloat
  payee : String

def PaymentRequest.ofKwargs [Pydantic] : Attrs → Except Raised PaymentRequest :=
  construct ["invoice_id", "amount_usd", "payee"] fun kw => do
    return {
      invoiceId := ← field kw "invoice_id" asStr
      amountUsd := ← field kw "amount_usd" asFloat
      payee := ← field kw "payee" asStr }

structure PaymentResult where
  confirmationId : String
  invoiceId : String
  amountUsd : PyFloat
  deduplicated : Bool := false

/-- `result.model_dump(exclude={"deduplicated"})`. -/
def PaymentResult.modelDump (r : PaymentResult) : Attrs :=
  [("confirmation_id", .str r.confirmationId), ("invoice_id", .str r.invoiceId),
    ("amount_usd", .float r.amountUsd)]

/-- `PaymentResult(**recorded, deduplicated=deduplicated)`. -/
def PaymentResult.ofKwargs [Pydantic] (recorded : Attrs) (deduplicated : Bool) : Except Raised PaymentResult :=
  construct ["confirmation_id", "invoice_id", "amount_usd"] (fun kw => do
    return {
      confirmationId := ← field kw "confirmation_id" asStr
      invoiceId := ← field kw "invoice_id" asStr
      amountUsd := ← field kw "amount_usd" asFloat
      deduplicated }) recorded

def paymentPayload (request : PaymentRequest) (idempotencyKey : String) : Attrs :=
  [("confirmation_id", .str (confirmationId idempotencyKey)), ("invoice_id", .str request.invoiceId),
    ("amount_usd", .float request.amountUsd), ("payee", .str request.payee)]

/-- The result of a payment, made by this attempt or an earlier one. -/
def paymentResult (request : PaymentRequest) (idempotencyKey : String) : PaymentResult :=
  { confirmationId := confirmationId idempotencyKey, invoiceId := request.invoiceId,
    amountUsd := request.amountUsd }

def callPaymentService (request : PaymentRequest) (idempotencyKey : String) : Prog Http Raised PaymentResult := do
  let existing ← httpGet "/payments"
  existing.raiseForStatus
  if existing.items.any (confirms (confirmationId idempotencyKey)) then
    return paymentResult request idempotencyKey
  else
    let response ← httpPost "/payments" (paymentPayload request idempotencyKey) idempotencyKey
    if 500 ≤ response.statusCode then
      fail (.applicationError ("payment service unavailable: " ++ toString response.statusCode) none false)
    else if 400 ≤ response.statusCode then
      fail (.applicationError ("payment rejected: " ++ toString response.statusCode ++ " " ++ response.text)
        (some "PaymentDeclined") true)
    else return paymentResult request idempotencyKey

/-- Pays an invoice at most once, however many times it is retried. -/
def issuePayment [Pydantic] (request : PaymentRequest) (info : Info) : Activity Http PaymentResult := do
  let (recorded, deduplicated) ← runOnce "payment" info fun idempotencyKey => provider do
    return (← callPaymentService request idempotencyKey).modelDump
  ofExcept (PaymentResult.ofKwargs recorded deduplicated)

/-! ## At most one payment -/

variable {request : PaymentRequest} {k : String} {w w' : World}

/-- What a payment's result reads as, fresh or restored. -/
theorem paymentResult_ofKwargs [Pydantic] {d : Attrs} {deduplicated : Bool} {r : PaymentResult}
    (hd : d = (paymentResult request k).modelDump ∨ Restored (paymentResult request k).modelDump d)
    (h : PaymentResult.ofKwargs d deduplicated = .ok r) :
    r.confirmationId = confirmationId k ∧ r.invoiceId = request.invoiceId ∧ r.amountUsd = request.amountUsd := by
  have hb := construct_ok h
  simp only [field, Option.bind_eq_bind, Option.bind_eq_some_iff, Option.pure_def, Option.some.injEq] at hb
  obtain ⟨c, ⟨v, hv, hc⟩, i, ⟨u, hu, hi⟩, a, ⟨z, hz, ha⟩, rfl⟩ := hb
  rcases hd with rfl | hd
  · cases hv; cases hc; cases hu; cases hi; cases hz; cases ha
    exact ⟨rfl, rfl, rfl⟩
  · rw [hd.str rfl] at hv hu
    rw [hd.float rfl hz] at ha
    cases hv; cases hc; cases hu; cases hi; cases ha
    exact ⟨rfl, rfl, rfl⟩

/-- What every attempt keeps. -/
structure PaymentInv (request : PaymentRequest) (k : String) (w : World) : Prop where
  recorded : Recorded k (paymentResult request k).modelDump w
  once : paid k w ≤ 1

theorem PaymentInv.others (x : Others k) (w : World) (h : PaymentInv request k w) :
    PaymentInv request k (x.act k w) :=
  ⟨h.recorded.others x, by rw [paid_others]; exact h.once⟩

/-- The provider's list answers whether the payment has been made. -/
theorem PaymentInv.get {c : List (Others k) × Choice} {ans : Option Response} (hI : PaymentInv request k w)
    (hc : providerWorld.amid (Others.act k) (.get "/payments") c w = .ok (ans, w')) :
    PaymentInv request k w' ∧ ∀ response, ans = some response →
      response.items.any (confirms (confirmationId k)) = false → paid k w' = 0 := by
  obtain ⟨w₁, h₁, h⟩ := amid_call PaymentInv.others hI hc
  obtain ⟨rfl, hr⟩ := providerWorld_get h
  refine ⟨h₁, fun response he hn => List.countP_eq_zero.mpr fun p hp => ?_⟩
  exact List.any_eq_false.mp hn p (by rw [hr response he]; exact hp)

/-- A post makes the first payment, where none has been made. -/
theorem PaymentInv.post {c : List (Others k) × Choice} {ans : Option Response} {json : Attrs} {header : String}
    (hI : PaymentInv request k w) (hn : paid k w = 0)
    (hc : providerWorld.amid (Others.act k) (.post "/payments" json header) c w = .ok (ans, w')) :
    PaymentInv request k w' := by
  obtain ⟨w₁, ⟨h₁, hn₁⟩, h⟩ := amid_call (A := fun w => PaymentInv request k w ∧ paid k w = 0)
    (fun x w h => ⟨h.1.others x, by rw [paid_others]; exact h.2⟩) ⟨hI, hn⟩ hc
  rcases providerWorld_post h with rfl | rfl
  · exact h₁
  · exact ⟨h₁.recorded.record _ _, (paid_record _ _).trans (by rw [hn₁])⟩

/-- A call to the provider posts only where no payment has been made. -/
theorem callPaymentService_safe (hI : PaymentInv request k w) :
    Safe (providerWorld.amid (Others.act k)) (PaymentInv request k)
      (fun r w => PaymentInv request k w ∧ r = paymentResult request k) (callPaymentService request k) w := by
  refine Safe.bind (httpSend_safe hI (fun c w' hc => (hI.get hc).1) fun c w₁ existing hc => ?_)
  obtain ⟨h₁, hn⟩ := hI.get hc
  refine Safe.bind (raiseForStatus_safe h₁ ?_)
  split
  · exact ⟨h₁, rfl⟩
  · rename_i hx
    have hn := hn existing rfl (Bool.eq_false_iff.mpr hx)
    refine Safe.bind (httpPost_safe h₁ (fun c w' hc => h₁.post hn hc) fun c w₂ response hc => ?_)
    have h₂ := h₁.post hn hc
    split
    · exact h₂
    · split
      · exact h₂
      · exact ⟨h₂, rfl⟩

theorem PaymentInv.call {o : DynamoOp} (hp : Permitted k (paymentResult request k).modelDump o) (c : Choice)
    (w : World) (ans : o.Ans) (w' : World) (hI : PaymentInv request k w)
    (hc : tableWorld World.seen o c w = .ok (ans, w')) : PaymentInv request k w' :=
  ⟨hI.recorded.call hp hc, by rw [(tableWorld_provider hc).1]; exact hI.once⟩

theorem issuePayment_safe [Pydantic] {info : Info} (hI : PaymentInv request (key "payment" info) w) :
    Safe (world (key "payment" info) World.seen) (PaymentInv request (key "payment" info))
      (fun r w => PaymentInv request (key "payment" info) w ∧
        r.confirmationId = confirmationId (key "payment" info) ∧ r.invoiceId = request.invoiceId ∧
          r.amountUsd = request.amountUsd)
      (issuePayment request info) w := by
  have table : ∀ o c w a w', Permitted (key "payment" info) (paymentResult request (key "payment" info)).modelDump o →
      PaymentInv request (key "payment" info) w →
      (tableWorld World.seen).amid (Others.act (key "payment" info)) o c w = .ok (a, w') →
      PaymentInv request (key "payment" info) w' :=
    fun o c w a w' hp h hc => amid_keeps PaymentInv.others (PaymentInv.call hp) h hc
  refine Safe.bind ((runOnce_safe
    (P := fun a => a.1 = (paymentResult request (key "payment" info)).modelDump ∨
      Restored (paymentResult request (key "payment" info)).modelDump a.1) (fun _ h => h) table table
    (fun c w a w' h hc => amid_keeps PaymentInv.others (fun c w a w' h hc => by cases hc; exact h) h hc)
    (fun w h => read_safe PaymentInv.others (fun w h => h.recorded) seen_mem
      (PaymentInv.call (o := .getItem _) trivial) h)
    (fun e r he hr => .inr (he r hr)) (fun e w he hn h => ?_) (.inl rfl) hI).mono fun a w ha => ?_)
  · exact Safe.inr (Safe.inr (Safe.bind ((callPaymentService_safe h).mono fun r w hr =>
      ⟨hr.1, congrArg PaymentResult.modelDump hr.2⟩)))
  · exact Safe.ofExcept ha.1 fun r hr => ⟨ha.1, paymentResult_ofKwargs ha.2 hr⟩

/-- Over any sequence of attempts at one call, each of which may stop or
raise anywhere and read the table as it was, the provider has at most one
payment with the call's confirmation id, and the attempts that return do so
with the same result. The call starts without a record, and with no payment
made under its id but, at most, one. -/
theorem issuePayment_once [Pydantic] (request : PaymentRequest) (info : Info) (w : World)
    (fresh : ∀ t ∈ w.versions, t.lookup (idempotencyKey (key "payment" info)) = none)
    (once : paid (key "payment" info) w ≤ 1)
    (scripts : List (List (List (Others (key "payment" info)) × Choice))) :
    let r := attempts (world (key "payment" info) World.seen) (issuePayment request info) scripts w
    paid (key "payment" info) r.2 ≤ 1 ∧
      ∀ result, .returned result ∈ r.1 →
        result.confirmationId = confirmationId (key "payment" info) ∧
          result.invoiceId = request.invoiceId ∧ result.amountUsd = request.amountUsd := by
  have hI : PaymentInv request (key "payment" info) w :=
    ⟨fun t ht row hr => absurd hr (by simp [fresh t ht]), once⟩
  obtain ⟨hI', hr⟩ := attempts_safe (fun w h _ => issuePayment_safe h) hI (starts_true _ scripts w)
  exact ⟨hI'.once, hr⟩

/-- An attempt that dies after its post, and the next one. -/
theorem issuePayment_once_killed :
    let request : PaymentRequest := ⟨"INV-1", .fin (.ofInt 100 (by decide)), "acme"⟩
    let r := attempts (world (key "payment" ⟨"job", "4"⟩) World.seen)
      (@issuePayment digits request ⟨"job", "4"⟩)
      [List.replicate 5 ([], {}), List.replicate 9 ([], {})] ⟨∅, [], [], []⟩
    paid (key "payment" ⟨"job", "4"⟩) r.2 ≤ 1 ∧
      ∀ result, .returned result ∈ r.1 → result.confirmationId = confirmationId (key "payment" ⟨"job", "4"⟩) ∧
        result.invoiceId = request.invoiceId ∧ result.amountUsd = request.amountUsd :=
  @issuePayment_once digits _ _ _ (fun t ht => by cases List.mem_singleton.mp ht; rfl) (by decide) _

end ControlPlane
