import ControlPlane.Registry.Maps

/-!
# Rows and what their models require

Every row carries the attributes its model requires, and so no read and no
listing fails on a partial row, in every table the operations reach without a
completion that finds no row (`rows_carry`). `completeIdempotencyRecord` is
the one write that does not look: after the record is deleted or expires, it
leaves a row of a status and a result (`completeIdempotencyRecord_strays`).
-/

namespace ControlPlane

open Effect Effect.Prog

/-- The row has every attribute its entity's model requires. -/
def Carries (e : Entity) (row : Attrs) : Prop := ∀ name ∈ e.required, (row.lookup name).isSome

theorem carries_stored {e : Entity} {attrs row : Attrs} (hs : serializeDict attrs = some row)
    (h : (e.required.all fun name => (attrs.lookup name).isSome) = true) : Carries e row := by
  intro name hn
  rw [serializeDict_isSome hs]
  exact List.all_eq_true.mp h name hn

theorem carries_invariant : RowInvariant Carries where
  put := by
    intro e attrs row hst hs
    cases hst <;> exact carries_stored hs rfl
  set := by
    intro e set new old _ _ ho name hn
    rw [setAttrs_lookup, Option.isSome_or, ho name hn, Bool.or_true]

/-! ## Building models from rows -/

section

variable {α β : Type}

theorem missing_error (e : Raised) : missing (.error e : Except Raised α) = missing (.error e : Except Raised β) := by
  cases e with
  | _ => rfl

theorem missing_map {built : Except Raised α} (h : missing built = []) (f : α → β) : missing (built.map f) = [] := by
  cases built with
  | error e => exact (missing_error e).trans h
  | ok a => rfl

theorem missing_readRow {ofItem : Attrs → Except Raised α} {row : Option Attrs}
    (h : ∀ r, row = some r → missing (ofItem r) = []) : missing (readRow ofItem row) = [] := by
  cases row with
  | none => rfl
  | some r => exact missing_map (h r rfl) some

/-- A list of models that is not built fails with one of theirs. -/
theorem missing_mapM {f : α → Except Raised β} {xs : List α} (h : ∀ x ∈ xs, missing (f x) = []) :
    missing (xs.mapM f) = [] := by
  induction xs with
  | nil => rfl
  | cons x xs ih =>
    have hx := h x List.mem_cons_self
    have hxs := ih fun y hy => h y (List.mem_cons_of_mem _ hy)
    rw [List.mapM_cons]
    cases hf : f x with
    | error e =>
      rw [hf] at hx
      exact (missing_error e).trans hx
    | ok y =>
      cases hr : xs.mapM f with
      | error e =>
        rw [hr] at hxs
        exact hxs
      | ok ys => rfl

theorem missing_ofItem {required : List String} {build : Attrs → Option α} {row : Attrs}
    (h : ∀ name ∈ required, (row.lookup name).isSome) : missing (ofItem (construct required build) row) = [] := by
  unfold ofItem decode
  cases hf : fromDecimalDict row with
  | none => rfl
  | some kw =>
    refine missing_construct fun name hn => ?_
    rw [fromDecimalDict_isSome hf]
    exact h name hn

/-- A setting requires nothing. -/
theorem missing_setting {name : String} {default : Bool} {mk : Bool → α} {row : Attrs} :
    missing (ofItem (fun kw => (flagOfKwargs name default kw).map mk) row) = [] := by
  unfold ofItem decode
  cases fromDecimalDict row with
  | none => rfl
  | some kw => exact missing_map (missing_construct fun _ hn => absurd hn List.not_mem_nil) mk

end

section

variable [Pydantic]

theorem missing_jobFromItem {row : Attrs} (h : ∀ name ∈ Job.required, (row.lookup name).isSome) :
    missing (jobFromItem row) = [] := by
  let keep : String → Bool := fun name => name ∉ ["gsi1_pk", "gsi1_sk"]
  refine missing_ofItem fun name hn => ?_
  have hk : Job.required.all keep = true := rfl
  rw [lookup_filter_key keep (List.all_eq_true.mp hk name hn)]
  exact h name hn

theorem Entity.missing_ofRow {e : Entity} {row : Option Attrs} (h : ∀ r, row = some r → Carries e r) :
    missing (e.ofRow row) = [] := by
  cases e with
  | tenant tenantId => exact missing_readRow fun r hr => missing_ofItem (h r hr)
  | agentPackage agentId version => exact missing_readRow fun r hr => missing_ofItem (h r hr)
  | job jobId => exact missing_readRow fun r hr => missing_jobFromItem (h r hr)
  | jobResult jobId => exact missing_readRow fun r hr => missing_ofItem (h r hr)
  | idempotencyRecord key => exact missing_readRow fun r hr => missing_ofItem (h r hr)
  | fairness => exact missing_map (missing_readRow fun r _ => missing_setting) _
  | killSwitch => exact missing_map (missing_readRow fun r _ => missing_setting) _

theorem Listing.missing_ofRow {l : Listing} {e : Entity} (hl : l.lists e) {row : Attrs} (h : Carries e row) :
    missing (l.ofRow row) = [] := by
  cases l with
  | tenants =>
    cases e with
    | tenant tenantId => exact missing_ofItem h
    | _ => cases hl
  | agentPackages =>
    cases e with
    | agentPackage agentId version => exact missing_ofItem h
    | _ => cases hl
  | agentPackageVersions id =>
    cases e with
    | agentPackage agentId version => exact missing_ofItem h
    | _ => cases hl
  | jobsForTenant tenantId limit =>
    cases e with
    | job jobId => exact missing_jobFromItem h
    | _ => cases hl

/-! ## Every row, in every order of calls -/

/-- A call on some entity, which is a job only if the operation is about one. -/
def ActsFor (op : Operation) (o : DynamoOp) : Prop := ∃ e, Acts e o ∧ ∀ id, e = .job id → op.entity = .job id

theorem calls_actsFor (op : Operation) : Calls (ActsFor op) op.prog := by
  have hsome {α : Type} {op : Operation} {e : Entity} {p : Repo α} (hp : Calls (Acts e) p)
      (he : ∀ id, e = .job id → op.entity = .job id) : Calls (ActsFor op) p := hp.mono fun _ ha => ⟨e, ha, he⟩
  have hput {op : Operation} (tenant : Tenant) : Calls (ActsFor op) (do putTenant tenant; return tenant) :=
    Calls.bind (hsome (calls_putTenant tenant) fun _ he => Entity.noConfusion he) fun _ => trivial
  have hread {op : Operation} (tenantId : String) : Calls (ActsFor op) (getTenant tenantId) :=
    hsome (e := .fairness) (Entity.calls_get (.tenant tenantId)) fun _ he => Entity.noConfusion he
  obtain h | ⟨tenantId, agentId, rfl | rfl⟩ := calls_prog op
  · exact hsome h fun _ he => he
  · refine Calls.bind (Calls.bind (hread tenantId) fun tenant => ?_) fun _ => trivial
    cases tenant with
    | none => trivial
    | some tenant =>
      refine Calls.bind (hsome (e := .fairness) (calls_listAgentPackageVersions agentId)
        fun _ he => Entity.noConfusion he) fun versions => ?_
      split
      · trivial
      · split
        · exact hput _
        · trivial
  · refine Calls.bind (Calls.bind (hread tenantId) fun tenant => ?_) fun _ => trivial
    cases tenant with
    | none => trivial
    | some tenant =>
      show Calls _ (if _ then _ else _)
      split
      · exact hput _
      · trivial

theorem calls_acts (op : Operation) : Calls (fun o => ∃ e, Acts e o) op.prog :=
  (calls_actsFor op).mono fun _ ⟨e, ha, _⟩ => ⟨e, ha⟩

/-- What holds of a row without attributes too, every row meets in every order
of the operations' calls. -/
theorem reachable_rows {P : Entity → Attrs → Prop} (hP : RowInvariant P) (hnil : ∀ e, P e []) (ops : ℕ → Operation)
    (sched : List (ℕ × Unit)) : Rows P (after ops sched) :=
  Pool.run_calls (fun _ _ _ _ _ _ ⟨e, ha⟩ _ hI hc => acts_rows hP ha (.inr (hnil e)) hI hc) (fun i => calls_acts (ops i))
    Rows.empty (Pool.along_true _ _)

/-- Every row present carries the attributes its model requires, and no read
and no listing fails on a partial row, whatever the order in which the calls
of the operations and the expiries take effect, so long as attributes are set
in rows that are there. -/
theorem rows_carry (ops : ℕ → Operation) (sched : List (ℕ × Unit))
    (h : Pool.Along (fun _ => onTable) Sets (start ops) sched) :
    Rows Carries (after ops sched) ∧
    (∀ e : Entity, missing (exec onTable e.get (after ops sched)).1 = []) ∧
    ∀ l : Listing, missing (exec onTable l.list (after ops sched)).1 = [] := by
  have hrows : Rows Carries (after ops sched) :=
    Pool.run_calls (fun _ _ _ _ _ _ ⟨_, ha⟩ ho hI hc => acts_rows carries_invariant ha (.inl ho) hI hc)
      (fun i => calls_acts (ops i)) Rows.empty h
  have hown := (reachable_own ops sched).world
  refine ⟨hrows, fun e => ?_, fun l => ?_⟩
  · rw [Entity.get_exec]
    exact Entity.missing_ofRow fun r hr => hrows.lookup hr
  · rw [Listing.list_exec]
    refine missing_mapM fun row hrow => ?_
    obtain ⟨r, hr, rfl⟩ := List.mem_map.mp hrow
    have hr := Listing.mem_of_limited hr
    obtain ⟨e, hl, he⟩ := lists_of_mem hown hr
    have hrow := AList.mem_lookup_iff.mpr (Listing.mem_select.mp hr).1
    rw [he] at hrow
    exact Listing.missing_ofRow hl (hrows.lookup hrow)

end

/-- A key is claimed, and completed while its record is there. -/
def completing (key : String) : ℕ → Operation
  | 0 => .claimIdempotencyKey key "2026-10-01T09:00:00+00:00"
  | _ => .completeIdempotencyRecord key [("confirmation", .str "C-1")]

theorem rows_carry_completed :
    letI := digits
    Rows Carries (after (completing "payment:job:2") [(0, ()), (1, ())]) := by
  let _ := digits
  have hclaim : Calls (fun o => ∀ t, Sets o t) ((start (completing "payment:job:2")).thread 0) :=
    Calls.bind (Calls.bind (Calls.ofExcept _) fun _ => ⟨fun _ => trivial, fun _ => trivial⟩) fun _ => trivial
  have hthere : (((start (completing "payment:job:2")).step (fun _ => onTable) (0, ())).world.lookup
      (idempotencyKey "payment:job:2")).isSome = true := by decide +kernel
  have h : Pool.Along (fun _ => onTable) Sets (start (completing "payment:job:2")) [(0, ()), (1, ())] := by
    refine ⟨fun o k ho => ?_, fun o k ho => ?_, trivial⟩
    · rw [ho] at hclaim
      exact hclaim.1 _
    · rw [Pool.step_thread_ne _ _ (by decide)] at ho
      cases ho
      exact fun _ => hthere
  exact (rows_carry _ _ h).1

/-- A record that is gone when its call completes. -/
def straying (key : String) : ℕ → Operation
  | 0 => .claimIdempotencyKey key "2026-10-01T09:00:00+00:00"
  | 1 => .expire key
  | _ => .completeIdempotencyRecord key [("confirmation", .str "C-1")]

/-- The completion leaves a row that no read accepts. -/
theorem completeIdempotencyRecord_strays :
    letI := digits
    ¬ Rows Carries (after (straying "payment:job:2") [(0, ()), (1, ()), (2, ())]) ∧
    missing (exec onTable (getIdempotencyRecord "payment:job:2")
      (after (straying "payment:job:2") [(0, ()), (1, ()), (2, ())])).1 = ["key", "created_at"] := by
  let _ := digits
  have hrow : ((after (straying "payment:job:2") [(0, ()), (1, ()), (2, ())]).lookup
      (Entity.idempotencyRecord "payment:job:2").key).any (fun row => (row.lookup "key").isNone) = true := by
    decide +kernel
  refine ⟨fun h => ?_, by decide +kernel⟩
  obtain ⟨row, hl, hn⟩ := (Option.any_eq_true _ _).mp hrow
  have hkey := h.lookup hl "key" (by decide)
  rw [Option.isNone_iff_eq_none.mp hn] at hkey
  cases hkey

end ControlPlane
