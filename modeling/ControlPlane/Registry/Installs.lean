import ControlPlane.Lib.ReadWrite
import ControlPlane.Registry.ReadBack

/-!
# Installs at the same time

`install` and `uninstall` of `app/api/routes/tenants.py`, which run in a
thread pool: each reads the tenant's row, and later writes the whole row back.

* `request_reads`: a request is a client that reads the tenant and writes
  what its change makes of it, if it changes anything.
* `installs_in_order_iff`: what two requests leave is what some order of them
  would, exactly if one reads after the other has ended, or they are about
  one agent, or one of them changes nothing.
-/

namespace ControlPlane

open Effect Effect.Prog

variable [Pydantic]

/-- The requests that change a tenant's installs. -/
inductive Request
  | install (agentId : String)
  | uninstall (agentId : String)

/-- The listing of an agent's versions answers with one. -/
def published (t : Table) (agentId : String) : Bool :=
  match (exec onTable (listAgentPackageVersions agentId) t).1 with
  | .ok versions => !versions.isEmpty
  | .error _ => false

namespace Request

def agentId : Request → String
  | install agentId => agentId
  | uninstall agentId => agentId

def prog (tenantId : String) : Request → Repo Tenant
  | install agentId => installAgent tenantId agentId
  | uninstall agentId => uninstallAgent tenantId agentId

/-- Whether the request changes the installed ids it reads. -/
def changes (t : Table) (installed : List String) : Request → Bool
  | install agentId => published t agentId && agentId ∉ installed
  | uninstall agentId => agentId ∈ installed

omit [Pydantic] in
/-- What it makes of them. -/
def installed (r : Request) (ids : List String) : List String :=
  match r with
  | install agentId => ids ++ [agentId]
  | uninstall agentId => ids.filter (· ≠ agentId)

/-- What it writes, of the tenant it read. -/
def writes (t : Table) (r : Request) (tenant : Tenant) : Option Tenant :=
  if r.changes t tenant.installedAgentIds then
    some { tenant with installedAgentIds := r.installed tenant.installedAgentIds }
  else none

end Request

/-- The table holds the tenant, and the packages of `t₀`. -/
structure Holds (tenantId : String) (t₀ : Table) (tenant : Tenant) (t : Table) : Prop where
  own : tenant.tenantId = tenantId
  row : ∃ row, t.lookup (tenantKey tenantId) = some row ∧ tenant.Kept row
  packages : ∀ agentId, selectPk ("AGENT#" ++ agentId) t.entries = selectPk ("AGENT#" ++ agentId) t₀.entries

variable {tenantId : String} {t₀ t : Table} {tenant : Tenant}

theorem Holds.get (h : Holds tenantId t₀ tenant t) : exec onTable (getTenant tenantId) t = (.ok (some tenant), t) := by
  obtain ⟨row, hl, hk⟩ := h.row
  rw [getTenant, exec_getRow, hl]
  simp only [readRow, hk.2, Except.map]

theorem Holds.published (h : Holds tenantId t₀ tenant t) (agentId : String) :
    published t agentId = ControlPlane.published t₀ agentId := by
  have hl : (exec onTable (listAgentPackageVersions agentId) t).1 =
      (exec onTable (listAgentPackageVersions agentId) t₀).1 := by
    show (exec onTable (ofExcept (((selectPk _ t.entries).map Sigma.snd).mapM (ofItem AgentPackage.ofKwargs))) t).1 =
      (exec onTable (ofExcept (((selectPk _ t₀.entries).map Sigma.snd).mapM (ofItem AgentPackage.ofKwargs))) t₀).1
    rw [exec_ofExcept, exec_ofExcept, h.packages]
  unfold ControlPlane.published
  rw [hl]

omit [Pydantic] in
/-- A row of another partition is not in a query's answer. -/
theorem selectPk_insert {pk : String} {key : Key} (hk : key.pk ≠ pk) (row : Attrs) (t : Table) :
    selectPk pk (t.insert key row).entries = selectPk pk t.entries := by
  have hf (l : List Row) : ((l.kerase key).filter fun r => r.1.pk = pk) = l.filter fun r => r.1.pk = pk := by
    induction l with
    | nil => rfl
    | cons r rest ih =>
      by_cases e : key = r.1
      · rw [List.kerase_cons_eq e, List.filter_cons_of_neg (by simpa [← e] using hk)]
      · rw [List.kerase_cons_ne e, List.filter_cons, List.filter_cons, ih]
  have he : (t.insert key row).entries = ⟨key, row⟩ :: t.entries.kerase key := rfl
  unfold selectPk
  rw [he, List.filter_cons_of_neg (by simpa using hk), hf]

/-- Writing a tenant's row changes the tenant alone. -/
theorem Holds.put {tenant' : Tenant} (h : Holds tenantId t₀ tenant t) (ho : tenant'.tenantId = tenantId) {row : Attrs}
    (hk : tenant'.Kept row) : Holds tenantId t₀ tenant' (t.insert (tenantKey tenantId) row) := by
  refine ⟨ho, ⟨row, AList.lookup_insert _, hk⟩, fun agentId => ?_⟩
  rw [selectPk_insert ?_, h.packages]
  simp [tenantKey, ← String.toList_inj, String.toList_append]

/-! ## The requests as clients -/

/-- Putting the tenant back is a client's last call. -/
theorem putBack_ahead {row : Attrs} (ho : tenant.tenantId = tenantId) (hk : tenant.Kept row) :
    Ahead onTable (Holds tenantId t₀) (some tenant) (do putTenant tenant; return tenant) := by
  intro tenant₁ t₁ h
  refine ⟨true, t₁.insert (tenantKey tenantId) row, ?_, .inr ⟨tenant, rfl, h.put ho hk, trivial⟩⟩
  show dynamo id t₁ (.putItem (tenantKey tenant.tenantId) (toDecimalDict tenant.modelDump) false) t₁ = _
  simp only [dynamo, hk.1, ho]
  rfl

/-- The listing of an agent's versions writes nothing. -/
theorem versions_ahead {agentId : String} {f : List AgentPackage → Repo Tenant} {o : Option Tenant}
    (hno : published t₀ agentId = false → o = none) (hnil : Ahead onTable (Holds tenantId t₀) none (f []))
    (hcons : published t₀ agentId = true → ∀ v vs, Ahead onTable (Holds tenantId t₀) o (f (v :: vs))) :
    Ahead onTable (Holds tenantId t₀) o (listAgentPackageVersions agentId >>= f) := by
  intro tenant₁ t₁ h
  refine ⟨_, t₁, rfl, .inl ⟨h, ?_⟩⟩
  have hp := h.published agentId
  show Ahead _ _ _ (ofExcept (((selectPk ("AGENT#" ++ agentId) t₁.entries).map Sigma.snd).mapM
    (ofItem AgentPackage.ofKwargs)) >>= f)
  unfold published at hp hno hcons
  rw [exec_listAgentPackageVersions agentId t₁] at hp
  cases hm : ((selectPk ("AGENT#" ++ agentId) t₁.entries).map Sigma.snd).mapM (ofItem AgentPackage.ofKwargs) with
  | error e =>
    rw [hm] at hp
    exact hno hp.symm
  | ok versions =>
    rw [hm] at hp
    cases versions with
    | nil =>
      rw [hno hp.symm]
      exact hnil
    | cons v vs => exact hcons hp.symm v vs

/-- A request reads the tenant first, and writes it back last. -/
theorem request_reads (r : Request) : Reads onTable (Holds tenantId t₀) (r.writes t₀) (r.prog tenantId) := by
  cases r with
  | install agentId =>
    show Reads _ _ _ (getTenant tenantId >>= _)
    rw [getTenant, getRow_eq]
    intro tenant t h
    obtain ⟨row, hl, hk⟩ := h.row
    refine ⟨some row, t, by rw [← hl]; rfl, h, ?_⟩
    simp only [hk.2]
    refine versions_ahead (fun hp => ?_) rfl fun hp v vs => ?_
    · simp [Request.writes, Request.changes, hp]
    · by_cases hi : agentId ∈ tenant.installedAgentIds
      · have hw : (Request.install agentId).writes t₀ tenant = none := by simp [Request.writes, Request.changes, hi]
        rw [hw]
        show Ahead _ _ _ (if _ then _ else if _ then _ else _)
        rw [if_neg (by simp), if_neg (not_not.mpr hi)]
        rfl
      · obtain ⟨row', hk'⟩ := hk.install (tenant.installedAgentIds ++ [agentId])
        have hw : (Request.install agentId).writes t₀ tenant =
            some { tenant with installedAgentIds := tenant.installedAgentIds ++ [agentId] } := by
          simp [Request.writes, Request.changes, hi, hp, Request.installed]
        rw [hw]
        show Ahead _ _ _ (if _ then _ else if _ then _ else _)
        rw [if_neg (by simp), if_pos hi]
        exact putBack_ahead h.own hk'
  | uninstall agentId =>
    show Reads _ _ _ (getTenant tenantId >>= _)
    rw [getTenant, getRow_eq]
    intro tenant t h
    obtain ⟨row, hl, hk⟩ := h.row
    refine ⟨some row, t, by rw [← hl]; rfl, h, ?_⟩
    simp only [hk.2]
    show Ahead _ _ _ (if _ then _ else _)
    by_cases hi : agentId ∈ tenant.installedAgentIds
    · obtain ⟨row', hk'⟩ := hk.install (tenant.installedAgentIds.filter (· ≠ agentId))
      rw [if_pos hi, Request.writes, if_pos (by simpa [Request.changes] using hi)]
      exact putBack_ahead h.own hk'
    · rw [if_neg hi, Request.writes, if_neg (by simpa [Request.changes] using hi)]
      rfl

/-! ## What two requests leave -/

section

variable {r r' : Request} {ids : List String}

omit [Pydantic] in
theorem Request.mem_installed_ne {agentId : String} (hne : agentId ≠ r.agentId) :
    agentId ∈ r.installed ids ↔ agentId ∈ ids := by
  cases r with
  | install a =>
    have hne : agentId ≠ a := hne
    simp [Request.installed, hne]
  | uninstall a =>
    have hne : agentId ≠ a := hne
    simp [Request.installed, hne]

/-- A change is one of its own agent. -/
theorem Request.mem_installed_self (hc : r.changes t ids = true) : r.agentId ∈ r.installed ids ↔ r.agentId ∉ ids := by
  cases r with
  | install a =>
    simp only [Request.changes, Bool.and_eq_true, decide_eq_true_eq] at hc
    simp [Request.installed, Request.agentId, hc.2]
  | uninstall a =>
    simp only [Request.changes, decide_eq_true_eq] at hc
    simp [Request.installed, Request.agentId, hc]

/-- What another agent's request does is no concern of a request. -/
theorem Request.changes_installed (hne : r.agentId ≠ r'.agentId) : r.changes t (r'.installed ids) = r.changes t ids := by
  cases r with
  | install a =>
    have hm : a ∈ r'.installed ids ↔ a ∈ ids := Request.mem_installed_ne hne
    simp only [Request.changes, hm]
  | uninstall a =>
    have hm : a ∈ r'.installed ids ↔ a ∈ ids := Request.mem_installed_ne hne
    simp only [Request.changes, hm]

/-- Two requests about one agent that both change something are the same, and
the second of them, after the first, is idle. -/
theorem Request.changes_same (ha : r.agentId = r'.agentId) (hc : r.changes t ids = true) (hc' : r'.changes t ids = true) :
    r' = r ∧ r.changes t (r.installed ids) = false := by
  have hs := Request.mem_installed_self hc
  cases r with
  | install a =>
    cases r' with
    | install b =>
      obtain rfl : a = b := ha
      simp only [Request.changes, Bool.and_eq_true, decide_eq_true_eq] at hc
      refine ⟨rfl, ?_⟩
      have hin : a ∈ (Request.install a).installed ids := hs.mpr hc.2
      simp [Request.changes, hin]
    | uninstall b =>
      obtain rfl : a = b := ha
      simp only [Request.changes, Bool.and_eq_true, decide_eq_true_eq] at hc hc'
      exact absurd hc' hc.2
  | uninstall a =>
    cases r' with
    | install b =>
      obtain rfl : a = b := ha
      simp only [Request.changes, Bool.and_eq_true, decide_eq_true_eq] at hc hc'
      exact absurd hc hc'.2
    | uninstall b =>
      obtain rfl : a = b := ha
      simp only [Request.changes, decide_eq_true_eq] at hc
      refine ⟨rfl, ?_⟩
      simp [Request.changes, Request.installed]

end

/-- Two requests on a tenant, at the same time. -/
def requests (tenantId : String) (r : Bool → Request) (t : Table) : Pool Dynamo Raised Tenant Table Bool :=
  ⟨t, fun i => (r i).prog tenantId⟩

/-- What is read of the tenant. -/
def tenantIn (tenantId : String) (t : Table) : Except Raised (Option Tenant) := (exec onTable (getTenant tenantId) t).1

/-- The request finds no tenant it can read, or nothing to change. -/
def Request.idle (tenantId : String) (t : Table) (r : Request) : Bool :=
  match tenantIn tenantId t with
  | .ok (some tenant) => !r.changes t tenant.installedAgentIds
  | _ => true

/-- The tenant is read as some order of the requests would leave it, and its
row differs from the one before in the installs alone. -/
structure InSomeOrder (tenant : Tenant) (r : Bool → Request) (t t' : Table) : Prop where
  order : ∃ i, tenantIn tenant.tenantId t' = tenantIn tenant.tenantId
    (exec onTable ((r i).prog tenant.tenantId) (exec onTable ((r !i).prog tenant.tenantId) t).2).2
  fields : ∃ ids row, t'.lookup (tenantKey tenant.tenantId) = some row ∧
    serializeDict (toDecimalDict { tenant with installedAgentIds := ids }.modelDump) = some row

theorem Holds.start {row : Attrs} (hrow : t.lookup (tenantKey tenant.tenantId) = some row) (hk : tenant.Kept row) :
    Holds tenant.tenantId t tenant t := ⟨rfl, ⟨row, hrow, hk⟩, fun _ => rfl⟩

theorem Holds.tenantIn (h : Holds tenantId t₀ tenant t) : tenantIn tenantId t = .ok (some tenant) :=
  congrArg Prod.fst h.get

/-- The tenant after a request alone. -/
def Request.apply (t : Table) (r : Request) (tenant : Tenant) : Tenant := (r.writes t tenant).getD tenant

theorem Request.apply_eq (t : Table) (r : Request) (tenant : Tenant) :
    r.apply t tenant = { tenant with
      installedAgentIds := if r.changes t tenant.installedAgentIds then r.installed tenant.installedAgentIds
        else tenant.installedAgentIds } := by
  unfold Request.apply Request.writes
  split <;> rfl

/-- Two requests about one agent that both change something are one request. -/
theorem Request.apply_same {r r' : Request} (hs : r.agentId = r'.agentId)
    (hc : r.changes t tenant.installedAgentIds = true) (hc' : r'.changes t tenant.installedAgentIds = true) :
    r.apply t (r'.apply t tenant) = r.apply t tenant := by
  obtain ⟨hsame, hagain⟩ := Request.changes_same hs hc hc'
  rw [hsame, Request.apply_eq t r (r.apply t tenant), Request.apply_eq, if_pos hc]
  simp only [hagain, Bool.false_eq_true, if_false]

theorem Request.writes_idle {r : Request} (hj : r.changes t tenant.installedAgentIds = false) :
    r.writes t tenant = none := by
  rw [Request.writes, hj]
  rfl

/-- A tenant that cannot be read is one no request changes. -/
theorem unreadable_reads {row : Attrs} {e : Raised} (hrow : t.lookup (tenantKey tenantId) = some row)
    (he : ofItem Tenant.ofKwargs row = .error e) (r : Request) :
    Reads onTable (fun (_ : Unit) w => w = t) (fun _ => none) (r.prog tenantId) := by
  cases r with
  | _ =>
    show Reads _ _ _ (getTenant tenantId >>= _)
    rw [getTenant, getRow_eq]
    rintro _ t' rfl
    refine ⟨some row, t', by rw [← hrow]; rfl, rfl, ?_⟩
    simp only [he]
    rfl

variable {r : Bool → Request} {sched : List (Bool × Unit)}

/-- A table that holds what an order of the requests makes of the tenant. -/
theorem Holds.inSomeOrder {tenant' : Tenant} {t' : Table} {i : Bool} (h : Holds tenant.tenantId t tenant t)
    (h' : Holds tenant.tenantId t tenant' t') (he : tenant' = (r i).apply t ((r !i).apply t tenant)) :
    InSomeOrder tenant r t t' := by
  subst he
  have hfirst := (request_reads (r !i)).exec h
  have hsecond := (request_reads (r i)).exec hfirst
  refine ⟨⟨i, by rw [h'.tenantIn, hsecond.tenantIn]; rfl⟩, ?_⟩
  obtain ⟨row, hl, hk⟩ := h'.row
  rw [Request.apply_eq, Request.apply_eq] at hk
  exact ⟨_, row, hl, hk.1⟩

/-- What two requests leave that overlap and change something of different
agents is no order's. -/
theorem not_inSomeOrder {t' : Table} {i : Bool} (h : Holds tenant.tenantId t tenant t)
    (h' : Holds tenant.tenantId t ((r i).apply t tenant) t') (hne : (r i).agentId ≠ (r !i).agentId)
    (hc : ∀ j, (r j).changes t tenant.installedAgentIds = true) : ¬ InSomeOrder tenant r t t' := by
  rintro ⟨⟨j, hj⟩, -⟩
  have hfirst := (request_reads (r !j)).exec h
  have hsecond := (request_reads (r j)).exec hfirst
  rw [h'.tenantIn, hsecond.tenantIn] at hj
  simp only [Except.ok.injEq, Option.some.injEq] at hj
  have hj : (r i).apply t tenant = (r j).apply t ((r !j).apply t tenant) := hj
  have hnej : (r j).agentId ≠ (r !j).agentId := by
    by_cases e : j = i
    · rw [e]; exact hne
    · rw [Bool.eq_not_of_ne e, Bool.not_not]; exact hne.symm
  simp only [Request.apply_eq, hc, if_true, Request.changes_installed hnej, Tenant.mk.injEq, true_and] at hj
  -- the agent of the request that wrote first
  have hb : (r !i).agentId ∈ (r i).installed tenant.installedAgentIds ↔
      (r !i).agentId ∈ (r j).installed ((r !j).installed tenant.installedAgentIds) := by rw [hj]
  rw [Request.mem_installed_ne hne.symm] at hb
  have hself := Request.mem_installed_self (hc !i)
  by_cases e : j = i
  · rw [e, Request.mem_installed_ne hne.symm, hself] at hb
    exact (iff_not_self hb)
  · rw [Bool.eq_not_of_ne e, Bool.not_not] at hb
    have hc' : (r !i).changes t ((r i).installed tenant.installedAgentIds) = true := by
      rw [Request.changes_installed hne.symm]; exact hc _
    rw [Request.mem_installed_self hc', Request.mem_installed_ne hne.symm] at hb
    exact (iff_not_self hb)

/-- A tenant that cannot be read is left as it is, by two requests as by one. -/
theorem unreadable_inSomeOrder {row : Attrs} {e : Raised} (hrow : t.lookup (tenantKey tenant.tenantId) = some row)
    (hput : serializeDict (toDecimalDict tenant.modelDump) = some row) (he : ofItem Tenant.ofKwargs row = .error e)
    (hdone : ∀ i, Ended (((requests tenant.tenantId r t).run (fun _ => onTable) sched).thread i)) :
    InSomeOrder tenant r t ((requests tenant.tenantId r t).run (fun _ => onTable) sched).world := by
  have hclients := two_clients (p := requests tenant.tenantId r t) (f := fun _ _ => none)
    (fun i => unreadable_reads hrow he (r i)) (v := ()) rfl hdone
  have hworld : ((requests tenant.tenantId r t).run (fun _ => onTable) sched).world = t := by
    by_cases ha : ∃ i, ReadsAfter onTable (requests tenant.tenantId r t) sched i
    · exact (hclients.1 ha).elim fun _ h => h
    · exact (hclients.2 ha).elim fun _ h => h
  have halone (r : Request) : (exec onTable (r.prog tenant.tenantId) t).2 = t :=
    (unreadable_reads hrow he r).exec (v := ()) rfl
  refine ⟨⟨true, ?_⟩, tenant.installedAgentIds, row, ?_, hput⟩
  · rw [hworld, halone, halone]
  · rw [hworld]; exact hrow

/-- Two requests that overlap leave what an order of them would, exactly if
they are about one agent or one finds nothing to change. -/
theorem overlapped_inSomeOrder_iff {t' : Table} {i : Bool} (h : Holds tenant.tenantId t tenant t)
    (h' : Holds tenant.tenantId t ((((r i).writes t tenant).or ((r !i).writes t tenant)).getD tenant) t') :
    InSomeOrder tenant r t t' ↔
      (r i).agentId = (r !i).agentId ∨ ∃ j, (r j).changes t tenant.installedAgentIds = false := by
  by_cases hc : ∀ j, (r j).changes t tenant.installedAgentIds = true
  · have hw : (r i).writes t tenant = some ((r i).apply t tenant) := by
      rw [Request.apply, Request.writes, if_pos (hc i)]; rfl
    rw [hw, Option.some_or, Option.getD_some] at h'
    by_cases hs : (r i).agentId = (r !i).agentId
    · exact iff_of_true (h.inSomeOrder h' (Request.apply_same hs (hc i) (hc !i)).symm) (.inl hs)
    · refine iff_of_false (not_inSomeOrder h h' hs hc) ?_
      rintro (hs' | ⟨j, hj⟩)
      · exact hs hs'
      · rw [hc j] at hj; cases hj
  · obtain ⟨j, hj⟩ := not_forall.mp hc
    have hj : (r j).changes t tenant.installedAgentIds = false := Bool.eq_false_iff.mpr hj
    have hnone : (r j).writes t tenant = none := Request.writes_idle hj
    refine iff_of_true (h.inSomeOrder (i := !j) h' ?_) (.inr ⟨j, hj⟩)
    rw [Bool.not_not, Request.apply, Request.apply, hnone]
    by_cases e : i = j
    · rw [e, hnone]; rfl
    · rw [Bool.eq_not_of_ne e, Bool.not_not, hnone, Option.or_none]; rfl

/-- What two requests on a tenant leave is what some order of them would,
exactly if one of them reads the tenant after the other has ended, or they are
about one agent, or one finds nothing to change. -/
theorem installs_in_order_iff (tenant : Tenant) (r : Bool → Request) (t : Table) (row : Attrs)
    (hrow : t.lookup (tenantKey tenant.tenantId) = some row)
    (hput : serializeDict (toDecimalDict tenant.modelDump) = some row) (sched : List (Bool × Unit))
    (hdone : ∀ i, Ended (((requests tenant.tenantId r t).run (fun _ => onTable) sched).thread i)) :
    InSomeOrder tenant r t ((requests tenant.tenantId r t).run (fun _ => onTable) sched).world ↔
      (∃ i, ReadsAfter onTable (requests tenant.tenantId r t) sched i) ∨
        (r true).agentId = (r false).agentId ∨ ∃ i, (r i).idle tenant.tenantId t = true := by
  cases hread : ofItem Tenant.ofKwargs row with
  | error e =>
    have hidle : (r true).idle tenant.tenantId t = true := by
      simp only [Request.idle, tenantIn, getTenant, exec_getRow, hrow, readRow, hread, Except.map]
    exact iff_of_true (unreadable_inSomeOrder hrow hput hread hdone) (.inr (.inr ⟨true, hidle⟩))
  | ok tenant' =>
    obtain rfl := tenant_readBack hput hread
    have hstart : Holds tenant'.tenantId t tenant' t := .start hrow ⟨hput, hread⟩
    have hidle (i : Bool) : (r i).idle tenant'.tenantId t = true ↔ (r i).changes t tenant'.installedAgentIds = false := by
      simp [Request.idle, hstart.tenantIn]
    simp only [hidle]
    obtain ⟨hafter, hover⟩ := two_clients (p := requests tenant'.tenantId r t)
      (fun i => request_reads (r i)) hstart hdone
    by_cases ha : ∃ i, ReadsAfter onTable (requests tenant'.tenantId r t) sched i
    · obtain ⟨i, hi⟩ := hafter ha
      exact iff_of_true (hstart.inSomeOrder hi rfl) (.inl ha)
    · obtain ⟨i, hi⟩ := hover ha
      have hagents : (r true).agentId = (r false).agentId ↔ (r i).agentId = (r !i).agentId := by
        cases i with
        | true => exact Iff.rfl
        | false => exact eq_comm
      rw [overlapped_inSomeOrder_iff hstart hi, hagents, or_iff_right ha]

/-! ## Two installs -/

omit [Pydantic]

def initech : Tenant where
  tenantId := "initech"
  name := "Initech"
  tier := .free
  priorityKey := 5
  fairnessWeight := .fin (.ofInt 1 Binary64.abs_one_le)
  memoryNamespace := "initech"
  s3Prefix := "tenants/initech/"

@[irreducible] def initechAttrs : Attrs := (serializeDict (toDecimalDict initech.modelDump)).getD []

/-- A published agent without code. -/
def noCodeAgent (agentId : String) : AgentPackage where
  agentId := agentId
  version := 1
  name := agentId
  tier := .noCode
  model := "bedrock-claude"
  systemPrompt := "Triage it."

/-- Two published agents, and a tenant that has installed none. -/
def initechTable : Table :=
  (exec onTable (do
      putAgentPackage (noCodeAgent "incident-triage")
      putAgentPackage (noCodeAgent "returns-triage")) ∅).2.insert (tenantKey "initech") initechAttrs

def twoInstalls (i : Bool) : Request := .install (if i then "incident-triage" else "returns-triage")

theorem initech_put : serializeDict (toDecimalDict initech.modelDump) = some initechAttrs := by
  have hs : (serializeDict (toDecimalDict initech.modelDump)).isSome = true := by decide +kernel
  obtain ⟨row, hrow⟩ := Option.isSome_iff_exists.mp hs
  unfold initechAttrs
  rw [hrow]
  rfl

/-- One install after the other. -/
theorem installs_in_order_apart :
    letI := digits
    let pool := requests "initech" twoInstalls initechTable
    InSomeOrder initech twoInstalls initechTable
      (pool.run (fun _ => onTable) (List.replicate 3 (true, ()) ++ List.replicate 3 (false, ()))).world := by
  let _ := digits
  refine (installs_in_order_iff initech twoInstalls initechTable initechAttrs (AList.lookup_insert _) initech_put _ ?_).mpr
    (.inl ⟨false, List.replicate 3 (true, ()), List.replicate 2 (false, ()), rfl, by decide, ?_⟩)
  · decide +kernel
  · decide +kernel

/-- Both installs read the tenant before either has written: one of them is lost. -/
theorem installs_lost :
    letI := digits
    let pool := requests "initech" twoInstalls initechTable
    let sched := [(true, ()), (false, ()), (true, ()), (false, ()), (true, ()), (false, ())]
    (∀ i, Ended ((pool.run (fun _ => onTable) sched).thread i)) ∧
      ¬ InSomeOrder initech twoInstalls initechTable (pool.run (fun _ => onTable) sched).world := by
  let _ := digits
  refine ⟨by decide +kernel, fun h => ?_⟩
  obtain ⟨i, hi⟩ := h.order
  have hlen := congrArg (fun r => (r.toOption.bind id).map fun tenant => tenant.installedAgentIds.length) hi
  revert hlen
  cases i <;> decide +kernel

end ControlPlane
