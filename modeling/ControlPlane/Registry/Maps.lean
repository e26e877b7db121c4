import ControlPlane.Registry.Entities

/-!
# The table as independent maps

An operation about one entity leaves every other entity as it was: what
reading it gives, and whether a listing selects its row
(`independent_maps`). Identifiers are any strings; no two entities share a
key, whatever they are.

* `Own`: what a row has of its entity: the identifiers in a tenant's and a
  package's row are its own, and only a job's row is in the index.
* `prog_keeps`: each operation keeps it so, whatever runs at the same time,
  and changes its own entity's row alone. An install or an uninstall puts
  back the tenant it read, so it is its own tenant's row it writes.
-/

namespace ControlPlane

open Effect Effect.Prog

/-! ## Rows and their entities -/

/-- What a row has of its entity. -/
structure Own (e : Entity) (row : Attrs) : Prop where
  tenant : ∀ tenantId v, e = .tenant tenantId → row.lookup "tenant_id" = some v → v = .str tenantId
  agent : ∀ agentId version v, e = .agentPackage agentId version → row.lookup "agent_id" = some v → v = .str agentId
  version : ∀ agentId version v, e = .agentPackage agentId version → row.lookup "version" = some v →
    v = .decimal (.fin version)
  index : row.lookup "gsi1_pk" ≠ none → ∃ jobId, e = .job jobId

theorem own_nil (e : Entity) : Own e [] :=
  ⟨fun _ _ _ h => (nomatch h), fun _ _ _ _ h => (nomatch h), fun _ _ _ _ h => (nomatch h), fun h => absurd rfl h⟩

theorem own_stored {e : Entity} {attrs row : Attrs} (hst : Stored e attrs) (hs : serializeDict attrs = some row) :
    Own e row := by
  have hl := serializeDict_lookup hs
  refine ⟨fun tenantId v he hv => ?_, fun agentId version v he hv => ?_, fun agentId version v he hv => ?_,
    fun hi => ?_⟩
  · rw [hl] at hv
    subst he
    cases hst
    cases hv
    rfl
  · rw [hl] at hv
    subst he
    cases hst
    cases hv
    rfl
  · rw [hl] at hv
    subst he
    cases hst with
    | agentPackage package =>
      have hint : serialize (.int package.version) = some v := hv
      rw [serialize] at hint
      split at hint
      · cases hint
        rfl
      · cases hint
  · rw [hl] at hi
    cases hst with
    | job job => exact ⟨_, rfl⟩
    | _ => exact absurd rfl hi

theorem own_invariant : RowInvariant Own where
  put := own_stored
  set := by
    intro e set new old hu hs ho
    -- neither update sets the attributes `Own` is about
    have hl : ∀ name ∈ ["tenant_id", "agent_id", "version", "gsi1_pk"],
        (setAttrs new old).lookup name = old.lookup name := by
      intro name hn
      have hset : set.lookup name = none := by
        simp only [List.mem_cons, List.not_mem_nil, or_false] at hn
        rcases hn with rfl | rfl | rfl | rfl <;> cases hu <;> rfl
      rw [setAttrs_lookup, serializeDict_lookup hs, hset]
      rfl
    simp only [List.forall_mem_cons] at hl
    obtain ⟨htenant, hagent, hversion, hindex, -⟩ := hl
    exact ⟨fun tenantId v he hv => ho.tenant tenantId v he (htenant ▸ hv),
      fun agentId version v he hv => ho.agent agentId version v he (hagent ▸ hv),
      fun agentId version v he hv => ho.version agentId version v he (hversion ▸ hv),
      fun hi => ho.index (hindex ▸ hi)⟩

/-- The two tables differ at most in the key's row. -/
def SameBut (key : Key) (t t' : Table) : Prop := ∀ k, k ≠ key → t'.lookup k = t.lookup k

theorem SameBut.refl (key : Key) (t : Table) : SameBut key t t := fun _ _ => rfl

theorem SameBut.trans {key : Key} {t t' t'' : Table} (h : SameBut key t t') (h' : SameBut key t' t'') :
    SameBut key t t'' := fun k hk => (h' k hk).trans (h k hk)

theorem acts_sameBut {e : Entity} {o : DynamoOp} {ans : o.Ans} {t t' : Table} (ha : Acts e o)
    (hc : onTable o () t = .ok (ans, t')) : SameBut e.key t t' := by
  refine fun k hk => dynamo_frame hc fun he => hk ?_
  cases o with
  | putItem key attrs ifAbsent => cases he; exact ha.1
  | updateItem key set ifPresent => cases he; exact ha.1
  | deleteItem key => cases he; exact ha
  | _ => cases he

/-! ## Operations -/

/-- A program whose calls keep what rows have of their entities, and change the
entity's row alone, whatever others do between them. -/
abbrev Keeps {α : Type} (e : Entity) (Q : α → Table → Prop) (p : Repo α) (t : Table) : Prop :=
  Guarded onTable (Rows Own) (fun _ _ => True) (SameBut e.key) Q p t

theorem keeps_of_calls {α : Type} {e : Entity} {p : Repo α} (hp : Calls (Acts e) p) (t : Table) :
    Keeps e (fun _ _ => True) p t :=
  Guarded.of_calls (fun _ _ h _ => h)
    (fun _ _ _ _ _ ha h _ hc => ⟨acts_rows own_invariant ha (.inr (own_nil e)) h hc, trivial, acts_sameBut ha hc⟩)
    hp trivial

variable [Pydantic]

/-- A tenant read from a tenant's row is that tenant. -/
theorem own_tenant {tenantId : String} {row : Attrs} {tenant : Tenant} (ho : Own (.tenant tenantId) row)
    (h : ofItem Tenant.ofKwargs row = .ok tenant) : tenant.tenantId = tenantId := by
  obtain ⟨v, hv, hf⟩ := Option.bind_eq_some_iff.mp (tenant_ofItem h)
  rw [ho.tenant tenantId v rfl hv] at hf
  cases hf
  rfl

/-- The tenant an operation reads is the one it asked for. -/
theorem getTenant_keeps (e : Entity) (tenantId : String) (t : Table) :
    Keeps e (fun a _ => ∀ tenant, a = some tenant → tenant.tenantId = tenantId) (getTenant tenantId) t := by
  unfold getTenant
  rw [getRow_eq]
  intro t₁ _ h c ans t₂ hc
  cases hc
  refine ⟨h, SameBut.refl _ _, ?_⟩
  cases hl : t₁.lookup (tenantKey tenantId) with
  | none => exact fun _ ht => nomatch ht
  | some row =>
    show Keeps e _ (ofExcept (ofItem Tenant.ofKwargs row) >>= fun a => done (some a)) t₁
    cases hr : ofItem Tenant.ofKwargs row with
    | error e => trivial
    | ok tenant =>
      intro tenant' ht
      cases ht
      exact own_tenant (h.lookup (e := .tenant tenantId) hl) hr

omit [Pydantic] in
/-- Putting the tenant back. -/
theorem putBack_keeps {tenantId : String} {tenant : Tenant} (ht : tenant.tenantId = tenantId) (t : Table) :
    Keeps (.tenant tenantId) (fun _ _ => True) (do putTenant tenant; return tenant) t := by
  rw [← ht]
  refine keeps_of_calls (Calls.bind (calls_putTenant tenant) fun _ => ?_) t
  trivial

theorem installAgent_keeps (tenantId agentId : String) (t : Table) :
    Keeps (.tenant tenantId) (fun _ _ => True) (installAgent tenantId agentId) t := by
  refine Guarded.bind ((getTenant_keeps _ tenantId t).mono fun tenant t₁ ht => ?_)
  cases tenant with
  | none => trivial
  | some tenant =>
    refine Guarded.bind ((keeps_of_calls (calls_listAgentPackageVersions agentId) t₁).mono fun versions t₂ _ => ?_)
    split
    · trivial
    · split
      · refine putBack_keeps ?_ t₂
        exact ht tenant rfl
      · trivial

theorem uninstallAgent_keeps (tenantId agentId : String) (t : Table) :
    Keeps (.tenant tenantId) (fun _ _ => True) (uninstallAgent tenantId agentId) t := by
  refine Guarded.bind ((getTenant_keeps _ tenantId t).mono fun tenant t₁ ht => ?_)
  cases tenant with
  | none => trivial
  | some tenant =>
    show Keeps _ _ (if _ then _ else _) t₁
    split
    · refine putBack_keeps ?_ t₁
      exact ht tenant rfl
    · trivial

theorem prog_keeps (op : Operation) (t : Table) : Keeps op.entity (fun _ _ => True) op.prog t := by
  obtain h | ⟨tenantId, agentId, rfl | rfl⟩ := calls_prog op
  · exact keeps_of_calls h t
  · exact Guarded.bind ((installAgent_keeps tenantId agentId t).mono fun _ _ _ => trivial)
  · exact Guarded.bind ((uninstallAgent_keeps tenantId agentId t).mono fun _ _ _ => trivial)

/-! ## Independence -/

/-- What an operation about `e` leaves as it was. -/
structure OnlyEntity (e : Entity) (t t' : Table) : Prop where
  /-- Reading another entity gives the same. -/
  get : ∀ f, f ≠ e → (exec onTable f.get t').1 = (exec onTable f.get t).1
  /-- A listing selects the same of the other rows. -/
  listing : ∀ (l : Listing) (r : Row), r.1 ≠ e.key → (r ∈ l.select t' ↔ r ∈ l.select t)

theorem SameBut.onlyEntity {e : Entity} {t t' : Table} (h : SameBut e.key t t') : OnlyEntity e t t' where
  get := by
    intro f hf
    rw [Entity.get_exec, Entity.get_exec, h _ fun hk => hf (Entity.key_injective hk)]
  listing := by
    intro l r hr
    rw [Listing.mem_select, Listing.mem_select]
    obtain ⟨key, row⟩ := r
    rw [← AList.mem_lookup_iff, ← AList.mem_lookup_iff, h key hr]

omit [Pydantic] in
/-- A listing selects its entities' rows only: the prefixes differ in a letter,
and only jobs are in the index. -/
theorem lists_of_selects {l : Listing} {e : Entity} {row : Attrs} (ho : Own e row)
    (hs : l.Selects ⟨e.key, row⟩) : l.lists e := by
  cases l with
  | tenants =>
    cases e <;> simp [Listing.Selects, Listing.lists, Entity.key, tenantKey, agentPackageKey, jobKey, jobResultKey,
      idempotencyKey, fairnessKey, killSwitchKey, String.toList_append] at hs ⊢
  | agentPackages =>
    cases e <;> simp [Listing.Selects, Listing.lists, Entity.key, tenantKey, agentPackageKey, jobKey, jobResultKey,
      idempotencyKey, fairnessKey, killSwitchKey, String.toList_append] at hs ⊢
  | agentPackageVersions agentId =>
    have hs := congrArg String.toList hs
    cases e <;> simp [Listing.lists, Entity.key, tenantKey, agentPackageKey, jobKey, jobResultKey,
      idempotencyKey, fairnessKey, killSwitchKey, String.toList_append] at hs ⊢
    exact String.toList_inj.mp hs
  | jobsForTenant tenantId limit =>
    obtain ⟨sk, hi⟩ := hs
    obtain ⟨jobId, rfl⟩ := ho.index fun hn => by simp [indexKey, hn] at hi
    trivial

omit [Pydantic] in
theorem lists_of_mem {t : Table} (h : Rows Own t) {l : Listing} {r : Row} (hr : r ∈ l.select t) :
    ∃ e, l.lists e ∧ r.1 = e.key := by
  obtain ⟨hm, hs⟩ := Listing.mem_select.mp hr
  obtain ⟨e, he, ho⟩ := h r.1 r.2 (AList.mem_lookup_iff.mpr hm)
  refine ⟨e, lists_of_selects ho ?_, he.symm⟩
  rw [he]
  exact hs

theorem reachable_own (ops : ℕ → Operation) (sched : List (ℕ × Unit)) :
    ((start ops).run (fun _ => onTable) sched).Kept (fun _ => onTable) (Rows Own) (fun _ _ _ => True)
      fun i => SameBut (ops i).entity.key :=
  Pool.run_guarded (fun _ _ => trivial) (fun _ _ _ _ _ _ => trivial) (fun _ _ _ _ _ _ => trivial)
    ⟨Rows.empty, fun i => prog_keeps (ops i) ∅⟩ sched

/-- The one table is as many maps: in every table the operations reach, in
whatever order their calls take effect, no two entities share a key, a listing
selects rows of its own entities only, and an operation (alone, or its next
call amid the others) leaves every other entity as it was. -/
theorem independent_maps (ops : ℕ → Operation) (sched : List (ℕ × Unit)) :
    Function.Injective Entity.key ∧
    (∀ (l : Listing) (r : Row), r ∈ l.select (after ops sched) → ∃ e, l.lists e ∧ r.1 = e.key) ∧
    (∀ op : Operation, OnlyEntity op.entity (after ops sched) (exec onTable op.prog (after ops sched)).2) ∧
    (∀ i, OnlyEntity (ops i).entity (after ops sched) (after ops (sched ++ [(i, ())]))) := by
  have hk := reachable_own ops sched
  refine ⟨Entity.key_injective, fun l r hr => lists_of_mem hk.world hr, fun op => ?_, fun i => ?_⟩
  · refine SameBut.onlyEntity ?_
    exact ((prog_keeps op _).exec (fun _ => trivial) (SameBut.refl _) (fun _ _ _ => SameBut.trans) hk.world).2
  · refine SameBut.onlyEntity ?_
    have hs := (Pool.step_guarded (fun _ _ => trivial) (fun _ _ _ _ _ _ => trivial) (fun _ _ _ _ _ _ => trivial)
      hk (i, ())).2
    rw [after_snoc]
    obtain e | g := hs
    · exact fun k _ => congrArg (fun t => AList.lookup k t) e
    · exact g

end ControlPlane
