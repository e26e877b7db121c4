import ControlPlane.Activities.Payment
import ControlPlane.Activities.Dispute

/-!
# The amount the gate sees and the amount the tool runs with

The approval policy reads a tool's input as the model wrote it; the tool runs
with the request that pydantic decodes from it. They see the same amount
where it is written as a float. They may differ where it is written as an
int that only as a float lies on the threshold (`RoundsOnto`), and where it
is written as a string or a bool, which the gate lets through whatever it
says. `requiresApproval_agrees_iff`: they agree exactly where neither makes a
difference (`SameVerdict`).
-/

namespace ControlPlane

open Binary64 (Double nearest_eq_some round_mono)

/-- The amount a tool runs with, if it accepts its request. -/
def runsWith [Pydantic] (tool : String) (request : Attrs) : Option PyFloat :=
  if tool = "issue_payment" then (PaymentRequest.ofKwargs request).toOption.map (·.amountUsd)
  else if tool = "submit_dispute_response" then
    (DisputeResponseRequest.ofKwargs request).toOption.map (·.amountUsd)
  else none

/-- The policy's comparison of an amount. -/
def ApprovalPolicy.compares (p : ApprovalPolicy) (amount : PyFloat) : Bool :=
  p.operator.holds ((floatValue amount).cmp (floatValue p.value))

/-- The ways a policy may name the request's amount. -/
def amountFields : List String := ["amount_usd", "request.amount_usd"]

/-- The int lies to the side of the threshold that the operator tells from
the threshold itself, onto which it rounds as a float. -/
def RoundsOnto (op : ApprovalOperator) (n : ℤ) (threshold : PyFloat) : Prop :=
  floatOfInt n = some threshold ∧
    match op with
    | .gt | .lte => (Ext.fin (n : ℚ)).cmp (floatValue threshold) = some .gt
    | .gte | .lt => (Ext.fin (n : ℚ)).cmp (floatValue threshold) = some .lt
    | .eq | .ne => (Ext.fin (n : ℚ)).cmp (floatValue threshold) ≠ some .eq

/-- Where the gate decides as the amount the tool runs with would have it. -/
def SameVerdict [Pydantic] (p : ApprovalPolicy) : Value → Prop
  | .float _ => True
  | .int n => ¬ RoundsOnto p.operator n p.value
  | v => ∀ amount, asFloat v = some amount → p.compares amount = false

/-! ## The request's amount -/

variable [Pydantic] {p : ApprovalPolicy} {request : Attrs} {amount : PyFloat} {v : Value}

/-- The amount a tool runs with is read from the request's own field. -/
theorem runsWith_field {tool : String} (h : runsWith tool request = some amount) :
    ∃ v, request.lookup "amount_usd" = some v ∧ asFloat v = some amount := by
  unfold runsWith at h
  split at h
  · cases hr : PaymentRequest.ofKwargs request with
    | error e => rw [hr] at h; cases h
    | ok r =>
      rw [hr] at h
      cases h
      have hb := construct_ok hr
      simp only [field, Option.bind_eq_bind, Option.bind_eq_some_iff, Option.pure_def, Option.some.injEq] at hb
      obtain ⟨_, -, _, ha, _, -, rfl⟩ := hb
      exact ha
  · split at h
    · cases hr : DisputeResponseRequest.ofKwargs request with
      | error e => rw [hr] at h; cases h
      | ok r =>
        rw [hr] at h
        cases h
        have hb := construct_ok hr
        simp only [field, Option.bind_eq_bind, Option.bind_eq_some_iff, Option.pure_def, Option.some.injEq] at hb
        obtain ⟨_, -, _, -, _, -, _, ha, rfl⟩ := hb
        exact ha
    · cases h

omit [Pydantic] in
/-- The policy finds the request's amount, by its name or its path. -/
theorem resolveField_request {name : String} (hf : name ∈ amountFields)
    (hr : request.lookup "amount_usd" = some v) (hv : v.isNull = false) :
    resolveField [("request", .dict request)] name = v := by
  rcases List.mem_cons.mp hf with rfl | hf
  · simp [resolveField, nestedHits, nestedHit, pickField, List.lookup_cons, hr, hv]
  · rw [List.mem_singleton.mp hf]
    have hd : '.' ∈ "request.amount_usd".toList := by decide
    have hs : splitDots "request.amount_usd" = ["request", "amount_usd"] := by decide
    simp only [resolveField, hd, if_true, hs, followPath, List.lookup_cons, beq_self_eq_true, hr]

/-! ## Ints that round onto the threshold -/

omit [Pydantic] in
/-- Rounding to a float leaves an int on its side of the threshold, or takes
it onto it. -/
theorem cmp_round {n : ℤ} {threshold : PyFloat} (h : floatOfInt n = some amount) :
    amount = threshold ∨
      (floatValue amount).cmp (floatValue threshold) = (Ext.fin (n : ℚ)).cmp (floatValue threshold) := by
  obtain ⟨d, hd, rfl⟩ := Option.map_eq_some_iff.mp h
  have hv := nearest_eq_some hd
  cases threshold with
  | inf neg => exact .inr rfl
  | nan => exact .inr rfl
  | fin t =>
    have ht := t.round_val
    rcases lt_trichotomy d.val t.val with hlt | heq | hgt
    · have hn : (n : ℚ) < t.val := lt_of_not_ge fun hge => by
        have := round_mono hge
        rw [ht, ← hv] at this
        exact absurd hlt (not_lt_of_ge this)
      exact .inr (by simp [floatValue, Ext.map, Ext.cmp, compare_lt_iff_lt.mpr hlt, compare_lt_iff_lt.mpr hn])
    · left
      cases d; cases t
      cases heq
      rfl
    · have hn : t.val < (n : ℚ) := lt_of_not_ge fun hge => by
        have := round_mono hge
        rw [ht, ← hv] at this
        exact absurd hgt (not_lt_of_ge this)
      exact .inr (by simp [floatValue, Ext.map, Ext.cmp, compare_gt_iff_gt.mpr hgt, compare_gt_iff_gt.mpr hn])

omit [Pydantic] in
theorem cmp_self {x : PyFloat} {n : ℤ} (h : floatOfInt n = some x) :
    (floatValue x).cmp (floatValue x) = some .eq := by
  obtain ⟨d, -, rfl⟩ := Option.map_eq_some_iff.mp h
  exact congrArg some (compare_eq_iff_eq.mpr rfl)

omit [Pydantic] in
theorem cmp_int {n : ℤ} {x : PyFloat} (h : floatOfInt n = some x) :
    ∃ o, (Ext.fin (n : ℚ)).cmp (floatValue x) = some o := by
  obtain ⟨d, -, rfl⟩ := Option.map_eq_some_iff.mp h
  exact ⟨_, rfl⟩

omit [Pydantic] in
/-- An int and its float decide alike unless it rounds onto the threshold. -/
theorem holds_round {n : ℤ} (h : floatOfInt n = some amount) :
    (p.operator.holds ((Ext.fin (n : ℚ)).cmp (floatValue p.value)) = p.compares amount) ↔
      ¬ RoundsOnto p.operator n p.value := by
  unfold RoundsOnto ApprovalPolicy.compares
  by_cases he : amount = p.value
  · rw [← he, cmp_self h, h]
    obtain ⟨o, ho⟩ := cmp_int h
    rw [ho]
    cases p.operator <;> cases o <;> simp [ApprovalOperator.holds]
  · have hr := (cmp_round h).resolve_left he
    rw [hr, h]
    simp [he]

/-- What is no number to the gate is let through. -/
theorem false_eq_compares (ha : asFloat v = some amount) :
    (false = p.compares amount) ↔ ∀ x, asFloat v = some x → p.compares x = false := by
  refine ⟨fun h x hx => ?_, fun h => (h amount ha).symm⟩
  rw [ha] at hx
  cases hx
  exact h.symm

/-- The gate asks for approval exactly where the policy's comparison holds of
the amount the tool runs with, if and only if nothing of how the amount is
written makes a difference. -/
theorem requiresApproval_agrees_iff (p : ApprovalPolicy) (request : Attrs) (amount : PyFloat)
    (hf : p.field ∈ amountFields) (accepted : runsWith p.tool request = some amount) :
    (p.requiresApproval p.tool [("request", .dict request)] = p.compares amount) ↔
      ∃ v, request.lookup "amount_usd" = some v ∧ SameVerdict p v := by
  obtain ⟨v, hr, ha⟩ := runsWith_field accepted
  have hv : v.isNull = false := by cases v <;> first | rfl | cases ha
  have hres := resolveField_request hf hr hv
  simp only [ApprovalPolicy.requiresApproval, ne_eq, not_true_eq_false, if_false, hres, hr, Option.some.injEq,
    exists_eq_left']
  cases v with
  | float x =>
    cases ha
    simp [Value.number?, SameVerdict, ApprovalPolicy.compares]
  | int n => exact holds_round ha
  | bool b => exact false_eq_compares ha
  | str s => exact false_eq_compares ha
  | _ => cases ha

omit [Pydantic] in
/-- A payment of 9000 written as a float, above a threshold of 200. -/
theorem requiresApproval_agrees_float :
    let p : ApprovalPolicy := ⟨"issue_payment", "amount_usd", .gt, .fin (.ofInt 200 (by decide))⟩
    let amount : PyFloat := .fin (.ofInt 9000 (by decide))
    let request : Attrs := [("invoice_id", .str "INV-1"), ("amount_usd", .float amount), ("payee", .str "acme")]
    (p.requiresApproval p.tool [("request", .dict request)] = p.compares amount) ↔
      ∃ v, request.lookup "amount_usd" = some v ∧ @SameVerdict digits p v :=
  @requiresApproval_agrees_iff digits _ _ _ (by decide) rfl

omit [Pydantic] in
/-- A payment of 9000 written as a string, above a threshold of 200: the tool
accepts it, and the gate asks nobody. -/
theorem requiresApproval_string :
    let p : ApprovalPolicy := ⟨"issue_payment", "amount_usd", .gt, .fin (.ofInt 200 (by decide))⟩
    let amount : PyFloat := .fin (.ofInt 9000 (by decide))
    let request : Attrs := [("invoice_id", .str "INV-1"), ("amount_usd", .str "9000"), ("payee", .str "acme")]
    @runsWith digits p.tool request = some amount ∧ p.compares amount = true ∧
      p.requiresApproval p.tool [("request", .dict request)] = false := by
  have hread : @asFloat digits (.str "9000") = some (.fin (.ofInt 9000 (by decide))) := by
    have : digits.parseInt "9000" = some 9000 := by decide
    calc @asFloat digits (.str "9000") = digits.parseInt "9000" >>= floatOfInt := rfl
      _ = _ := by rw [this]; exact congrArg (Option.map Ext.fin) (Binary64.nearest_int (n := 9000) (by norm_num))
  refine ⟨?_, by decide +kernel, ?_⟩
  · simp [runsWith, PaymentRequest.ofKwargs, construct, field, asStr, List.lookup_cons, hread, Except.toOption]
  · simp only [ApprovalPolicy.requiresApproval, ne_eq, not_true_eq_false, if_false]
    rw [resolveField_request (v := .str "9000") (by decide) rfl rfl]
    rfl

end ControlPlane
