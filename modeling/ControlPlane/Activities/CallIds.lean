import ControlPlane.Activities.Payment
import ControlPlane.Activities.Dispute

/-!
# The ids of scheduled calls

A call's idempotency key joins its tool, its workflow and its number with
`:`; the confirmation id of a payment and the case id of a filing are the key
with every `:` turned into `-`, which workflow ids hold too.

* `key_inj`: the keys of two calls differ, whatever the workflow ids are, for
  a number holds no `:`.
* `distinguished_iff`: the ids of two calls differ, and a payment of the one
  is not answered from the other's, unless the two have the same number and
  workflow ids that differ only in `:` and `-`.
-/

namespace ControlPlane

open Effect Effect.Prog

/-- A scheduled activity: Temporal numbers those of a workflow. -/
structure ScheduledCall where
  workflowId : String
  activityId : String
  numeral : activityId ≠ "" ∧ ∀ c ∈ activityId.toList, c.isDigit

def ScheduledCall.info (call : ScheduledCall) : Info := ⟨call.workflowId, call.activityId⟩

/-- The names the consequential tools run under. -/
def consequential : List String := ["payment", "dispute"]

/-- Whether two characters are the same once `:` is `-`. -/
def SameDashed (x y : Char) : Prop := x = y ∨ x = ':' ∧ y = '-' ∨ x = '-' ∧ y = ':'

/-- The calls have the same number, and workflow ids that differ only in `:`
and `-`. -/
def Conflated (a b : ScheduledCall) : Prop :=
  a.activityId = b.activityId ∧ List.Forall₂ SameDashed a.workflowId.toList b.workflowId.toList

/-- The provider keeps every POST it answers with less than 400. -/
def Choice.Honest (c : Choice) : Prop := c.statusCode < 400 → c.recorded = true

/-- What keeps two calls apart. -/
structure Distinguished (a b : ScheduledCall) : Prop where
  keys : ∀ p ∈ consequential, ∀ q ∈ consequential, key p a.info ≠ key q b.info
  confirmationIds : confirmationId (key "payment" a.info) ≠ confirmationId (key "payment" b.info)
  caseIds : caseId (key "dispute" a.info) ≠ caseId (key "dispute" b.info)
  /-- A payment of `b` that returns has been made, where the provider has the
  payments of `a`. -/
  paid : ∀ (request : PaymentRequest) (script : List Choice) (w w' : World) (r : PaymentResult),
    (∀ payment ∈ w.payments, ∃ earlier, payment = paymentPayload earlier (key "payment" a.info)) →
    (∀ c ∈ script, c.Honest) →
    run providerWorld (callPaymentService request (key "payment" b.info)) script w = (.returned r, w') →
    paymentPayload request (key "payment" b.info) ∈ w'.payments

/-! ## Keys -/

section
variable {α : Type} {sep : α} {a a' b b' : List α}

/-- A list splits at a separator in one way where none is left after it. -/
theorem append_sep_inj (hb : sep ∉ b) (hb' : sep ∉ b') (h : a ++ sep :: b = a' ++ sep :: b') : a = a' ∧ b = b' := by
  rcases List.append_eq_append_iff.mp h with ⟨as, rfl, ht⟩ | ⟨as, rfl, ht⟩
  · cases as with
    | nil => exact ⟨(List.append_nil a).symm, (List.cons.inj ht).2⟩
    | cons x as => exact absurd ((List.cons.inj ht).2 ▸ List.mem_append_right _ List.mem_cons_self) hb
  · cases as with
    | nil => exact ⟨List.append_nil a', (List.cons.inj ht).2.symm⟩
    | cons x as => exact absurd ((List.cons.inj ht).2 ▸ List.mem_append_right _ List.mem_cons_self) hb'

end

variable {a b : ScheduledCall} {p q : String}

theorem toList_key (p : String) (info : Info) :
    (key p info).toList = (p.toList ++ ':' :: info.workflowId.toList) ++ ':' :: info.activityId.toList := by
  simp [key, String.toList_append]

/-- A digit is no separator. -/
theorem ScheduledCall.notMem (call : ScheduledCall) {c : Char} (hc : c.isDigit = false) :
    c ∉ call.activityId.toList :=
  fun h => by simpa [hc] using call.numeral.2 c h

/-- The keys of two calls are the same only for the same tool and call. -/
theorem key_inj (hp : ':' ∉ p.toList) (hq : ':' ∉ q.toList) (h : key p a.info = key q b.info) :
    p = q ∧ a.info = b.info := by
  have h := congrArg String.toList h
  rw [toList_key, toList_key] at h
  obtain ⟨h, ha⟩ := append_sep_inj (a.notMem rfl) (b.notMem rfl) h
  -- the tool's name is what stands before the first separator
  have h := congrArg List.reverse h
  simp only [List.reverse_append, List.reverse_cons, List.append_assoc, List.singleton_append] at h
  obtain ⟨hw, hpq⟩ := append_sep_inj (by simpa using hp) (by simpa using hq) h
  have hw := String.toList_inj.mp (List.reverse_inj.mp hw)
  have ha := String.toList_inj.mp ha
  exact ⟨String.toList_inj.mp (List.reverse_inj.mp hpq), congrArg₂ Info.mk hw ha⟩

/-! ## Confirmation ids and case ids -/

/-- What `key.replace(':', '-')` does to a character. -/
def dash (c : Char) : Char := if c = ':' then '-' else c

theorem dash_eq_iff {x y : Char} : dash x = dash y ↔ SameDashed x y := by
  unfold dash SameDashed
  split <;> split <;> grind

theorem toList_dashes (s : String) : (dashes s).toList = s.toList.map dash := String.toList_ofList

/-- A number is left as it is. -/
theorem ScheduledCall.map_dash (call : ScheduledCall) : call.activityId.toList.map dash = call.activityId.toList := by
  refine (List.map_congr_left fun c hc => if_neg fun h => ?_).trans (List.map_id _)
  exact call.notMem (c := ':') rfl (h ▸ hc)

/-- The ids made of the keys of one tool are the same just where the calls are
conflated. -/
theorem dashes_key_eq_iff : dashes (key p a.info) = dashes (key p b.info) ↔ Conflated a b := by
  have hd : ∀ call : ScheduledCall, (dashes (key p call.info)).toList =
      (p.toList.map dash ++ '-' :: call.workflowId.toList.map dash) ++ '-' :: call.activityId.toList := fun call => by
    simp only [toList_dashes, toList_key, List.map_append, List.map_cons, ScheduledCall.info, call.map_dash]
    rfl
  rw [← String.toList_inj, hd, hd, Conflated]
  constructor
  · intro h
    obtain ⟨h, ha⟩ := append_sep_inj (a.notMem rfl) (b.notMem rfl) h
    have hw := (List.cons.inj (List.append_cancel_left h)).2
    refine ⟨String.toList_inj.mp ha, ?_⟩
    rw [← List.forall₂_eq_eq_eq, List.forall₂_map_left_iff, List.forall₂_map_right_iff] at hw
    exact hw.imp fun x y => dash_eq_iff.mp
  · rintro ⟨ha, hw⟩
    have hw : a.workflowId.toList.map dash = b.workflowId.toList.map dash := by
      rw [← List.forall₂_eq_eq_eq, List.forall₂_map_left_iff, List.forall₂_map_right_iff]
      exact hw.imp fun x y => dash_eq_iff.mpr
    rw [ha, hw]

theorem confirmationId_eq_iff :
    confirmationId (key p a.info) = confirmationId (key p b.info) ↔ Conflated a b :=
  (String.append_right_inj _).trans dashes_key_eq_iff

theorem caseId_eq_iff : caseId (key p a.info) = caseId (key p b.info) ↔ Conflated a b :=
  (String.append_right_inj _).trans dashes_key_eq_iff

/-! ## Payments that are answered from the provider's -/

/-- A payment carries its own confirmation id and no other. -/
theorem confirms_paymentPayload (request : PaymentRequest) (id k : String) :
    confirms id (paymentPayload request k) = decide (confirmationId k = id) := by
  simp [confirms, paymentPayload, getItem, Value.eqStr]

section
variable {request : PaymentRequest} {k : String} {w w' : World} {r : PaymentResult}

/-- A run that returns has had its first request answered. -/
theorem run_httpSend {o : HttpOp} {f : Response → Prog Http Raised PaymentResult} {script : List Choice}
    (h : run providerWorld (httpSend o >>= f) script w = (.returned r, w')) :
    ∃ c cs response w₁, script = c :: cs ∧ providerWorld o c w = .ok (some response, w₁) ∧
      run providerWorld (f response) cs w₁ = (.returned r, w') := by
  obtain ⟨c, cs, ans, w₁, rfl, hc, h⟩ := run_returned (S := Http) h
  cases ans with
  | none => cases h
  | some response => exact ⟨c, cs, response, w₁, rfl, hc, h⟩

/-- A run that returns has had its body written, and the post answered. -/
theorem run_httpPost {path header : String} {json : Attrs} {f : Response → Prog Http Raised PaymentResult}
    {script : List Choice} (h : run providerWorld (httpPost path json header >>= f) script w = (.returned r, w')) :
    ∃ c cs response w₁, script = c :: cs ∧ providerWorld (.post path json header) c w = .ok (some response, w₁) ∧
      run providerWorld (f response) cs w₁ = (.returned r, w') := by
  unfold httpPost at h
  split at h
  · exact run_httpSend h
  · cases h

/-- A post that is accepted is on record. -/
theorem providerWorld_accepted {c : Choice} (honest : c.Honest) {json : Attrs} {header : String}
    {response : Response} (hr : response.statusCode < 400)
    (h : providerWorld (.post "/payments" json header) c w = .ok (some response, w')) : json ∈ w'.payments := by
  obtain ⟨ha, rfl⟩ := Prod.mk.inj (Except.ok.inj h)
  unfold Choice.response at ha
  split at ha
  · cases ha
    rw [if_pos (honest hr)]
    exact List.mem_append_right _ (List.mem_singleton.mpr rfl)
  · cases ha

/-- A call whose payment the provider does not have returns having made it. -/
theorem callPaymentService_pays {script : List Choice}
    (hn : ∀ payment ∈ w.payments, confirms (confirmationId k) payment = false)
    (honest : ∀ c ∈ script, c.Honest)
    (h : run providerWorld (callPaymentService request k) script w = (.returned r, w')) :
    paymentPayload request k ∈ w'.payments := by
  obtain ⟨c, cs, existing, w₁, rfl, hc, h₁⟩ := run_httpSend h
  obtain ⟨rfl, hi⟩ := providerWorld_get hc
  have hi : existing.items = w₁.payments := hi existing rfl
  unfold Response.raiseForStatus at h₁
  split at h₁
  · have hn : existing.items.any (confirms (confirmationId k)) = false := by
      rw [hi]
      exact List.any_eq_false.mpr fun p hp => by simp [hn p hp]
    simp only [pure_eq, done_bind, hn, Bool.false_eq_true, if_false] at h₁
    obtain ⟨c', cs', response, w₂, rfl, hc', h₂⟩ := run_httpPost h₁
    have honest' := honest c' (List.mem_cons_of_mem _ List.mem_cons_self)
    split at h₂
    · cases h₂
    · split at h₂
      · cases h₂
      · rename_i hr
        cases h₂
        exact providerWorld_accepted honest' (by omega) hc'
  · cases h₁

end

/-! ## Calls that are told apart -/

/-- Two calls are told apart, in every way their ids are used, just where they
are not conflated. -/
theorem distinguished_iff (a b : ScheduledCall) (different : a.info ≠ b.info) :
    Distinguished a b ↔ ¬ Conflated a b := by
  constructor
  · intro h hc
    exact h.confirmationIds (confirmationId_eq_iff.mpr hc)
  · intro hc
    have plain : ∀ p ∈ consequential, ':' ∉ p.toList := by decide
    refine ⟨fun p hp q hq h => different (key_inj (plain p hp) (plain q hq) h).2, mt confirmationId_eq_iff.mp hc,
      mt caseId_eq_iff.mp hc, fun request script w w' r hw honest h => ?_⟩
    refine callPaymentService_pays (fun payment hp => ?_) honest h
    obtain ⟨earlier, rfl⟩ := hw payment hp
    rw [confirms_paymentPayload]
    exact decide_eq_false (mt confirmationId_eq_iff.mp hc)

/-- The calls of two jobs. -/
theorem distinguished_iff_jobs :
    let a : ScheduledCall := ⟨"acme-17", "4", by decide, List.all_eq_true.mp (by decide)⟩
    let b : ScheduledCall := ⟨"acme-18", "4", by decide, List.all_eq_true.mp (by decide)⟩
    Distinguished a b ↔ ¬ Conflated a b :=
  distinguished_iff _ _ (by simp [ScheduledCall.info])

/-- The payment of `job-1` is answered from that of `job:1`, and never made. -/
theorem distinguished_fails :
    let a : ScheduledCall := ⟨"job:1", "4", by decide, List.all_eq_true.mp (by decide)⟩
    let b : ScheduledCall := ⟨"job-1", "4", by decide, List.all_eq_true.mp (by decide)⟩
    let paid : PaymentRequest := ⟨"INV-1", .fin (.ofInt 100 (by decide)), "acme"⟩
    let request : PaymentRequest := ⟨"INV-2", .fin (.ofInt 250 (by decide)), "globex"⟩
    let w : World := ⟨∅, [], [paymentPayload paid (key "payment" a.info)], []⟩
    a.info ≠ b.info ∧ ¬ Distinguished a b ∧
      run providerWorld (callPaymentService request (key "payment" b.info)) [{}, {}] w =
        (.returned (paymentResult request (key "payment" b.info)), w) := by
  refine ⟨by simp [ScheduledCall.info], fun h => h.confirmationIds (by decide), by rfl⟩

end ControlPlane
