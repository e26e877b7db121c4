import ControlPlane.Cli.Commands

/-!
# Installs and their history

What a tenant has installed, after commands run one after another to their
end; each reads the table as the one before left it. `install` and `uninstall` rewrite a tenant's row as it was read but for
its list, `unregister` does so for each tenant its Scan shows, and `add`
writes a row from the command line's options, with an empty list.

* `putTenant_exec`, `installAgent_exec`, `uninstallAgent_exec`,
  `agentUnregister_exec`: what each does to the lists where it succeeds, and
  that it does nothing where it fails.
* `installed_iff_last`: while `add` meets only tenants that have nothing
  installed, and `unregister` sees the tenants it has to, an agent is
  installed exactly if the last operation on it was the install.
* `tenantAdd_uninstalls`: `add` of a tenant that is there takes its installs
  away.
-/

namespace ControlPlane

open Effect Effect.Prog
open Machine (Along along_nil along_cons)

/-! ## The commands, run to their end -/

/-- Calls that see the first page of the table as it is; these commands ask
for no time. -/
def pageCalls : Handler ClientSig CliError Unit Table :=
  (onPages.sum (Handler.sum (fun _ _ t => .ok ("", t)) fun _ _ t => .ok ((), t))).mapError .raised

section

variable {α : Type} {t : Table}

/-- A command's part on the table does what it does there. -/
theorem exec_pageCalls (f : Raised → CliError) (p : Repo α) (t : Table) :
    (exec pageCalls ((repo p : Client α).mapError f) t).2 = (exec onPages p t).2 ∧
      (exec pageCalls ((repo p : Client α).mapError f) t).1.toOption = (exec onPages p t).1.toOption := by
  induction p generalizing t with
  | done a => exact ⟨rfl, rfl⟩
  | fail e => exact ⟨rfl, rfl⟩
  | call o k ih =>
    cases hc : onPages o () t with
    | error e =>
      have hc' : pageCalls (.inl o) () t = .error (.raised e) := by
        simp only [pageCalls, Handler.mapError, Handler.sum, hc]
      have hp : exec pageCalls ((repo (call o k) : Client α).mapError f) t = (.error (.raised e), t) :=
        exec_raised (h := pageCalls) (o := .inl o) (k := fun a => (repo (k a) : Client α).mapError f) hc'
      rw [hp, exec_raised hc]
      exact ⟨rfl, rfl⟩
    | ok r =>
      have hc' : pageCalls (.inl o) () t = .ok r := by
        simp only [pageCalls, Handler.mapError, Handler.sum, hc]
      have hp : exec pageCalls ((repo (call o k) : Client α).mapError f) t =
          exec pageCalls ((repo (k r.1) : Client α).mapError f) r.2 :=
        exec_answered (h := pageCalls) (o := .inl o) (k := fun a => (repo (k a) : Client α).mapError f) hc'
      rw [hp, exec_answered hc]
      exact ih r.1 r.2

/-- A part on the table that succeeds there, succeeds in the command. -/
theorem exec_table_ok {p : Repo α} {a : α} {t' : Table} (f : Raised → CliError) (h : exec onPages p t = (.ok a, t')) :
    exec pageCalls ((repo p : Client α).mapError f) t = (.ok a, t') := by
  obtain ⟨h₂, h₁⟩ := exec_pageCalls f p t
  rw [h] at h₁ h₂
  refine Prod.ext ?_ h₂
  cases hr : (exec pageCalls ((repo p : Client α).mapError f) t).1 with
  | error e => rw [hr] at h₁; cases h₁
  | ok b => rw [hr] at h₁; cases h₁; rfl

theorem exec_table_error {p : Repo α} {e : Raised} {t' : Table} (f : Raised → CliError)
    (h : exec onPages p t = (.error e, t')) :
    ∃ e', exec pageCalls ((repo p : Client α).mapError f) t = (.error e', t') := by
  obtain ⟨h₂, h₁⟩ := exec_pageCalls f p t
  rw [h] at h₁ h₂
  cases hr : (exec pageCalls ((repo p : Client α).mapError f) t).1 with
  | error e' => exact ⟨e', Prod.ext hr h₂⟩
  | ok b => rw [hr] at h₁; cases h₁

end

/-! ## Tenants' rows -/

/-- A tenant's row, as a tenant is put that has no agent installed twice. -/
def PutOnce (e : Entity) (row : Attrs) : Prop :=
  ∀ tenantId, e = .tenant tenantId → ∃ tenant : Tenant, tenant.tenantId = tenantId ∧ tenant.installedAgentIds.Nodup ∧
    serializeDict (toDecimalDict tenant.modelDump) = some row

/-- What the tenants have installed. -/
def Installs (t : Table) (installs : String → String → Prop) : Prop :=
  Rows PutOnce t ∧ ∀ tenantId agentId, Installed t tenantId agentId ↔ installs tenantId agentId

section

variable {t : Table} {tenant : Tenant} {row : Attrs} {installs : String → String → Prop}

theorem Installs.congr {installs' : String → String → Prop} (h : Installs t installs)
    (he : ∀ tenantId agentId, installs tenantId agentId ↔ installs' tenantId agentId) : Installs t installs' :=
  ⟨h.1, fun tenantId agentId => (h.2 tenantId agentId).trans (he tenantId agentId)⟩

/-- A put of a tenant sets its own list. -/
theorem Installs.put (h : Installs t installs) (hn : tenant.installedAgentIds.Nodup)
    (hs : serializeDict (toDecimalDict tenant.modelDump) = some row) :
    Installs (t.insert (tenantKey tenant.tenantId) row) fun tenantId agentId =>
      if tenantId = tenant.tenantId then agentId ∈ tenant.installedAgentIds else installs tenantId agentId := by
  constructor
  · refine h.1.insert (e := .tenant tenant.tenantId) fun tenantId he => ?_
    cases he
    exact ⟨tenant, rfl, hn, hs⟩
  · intro tenantId agentId
    dsimp only
    by_cases hid : tenantId = tenant.tenantId
    · rw [if_pos hid, hid, installed_put (AList.lookup_insert _) hs]
    · have hk : tenantKey tenantId ≠ tenantKey tenant.tenantId :=
        key_ne (e := .tenant tenantId) (f := .tenant tenant.tenantId) (by simpa using hid)
      rw [if_neg hid, installed_congr (AList.lookup_insert_ne hk), h.2]

/-- A row of another kind has no installs in it. -/
theorem Installs.other {e : Entity} (h : Installs t installs) (he : ∀ tenantId, e ≠ .tenant tenantId) (row : Option Attrs) :
    Installs (row.elim (t.erase e.key) fun row => t.insert e.key row) installs := by
  have hk (tenantId : String) : tenantKey tenantId ≠ e.key := key_ne (e := .tenant tenantId) (Ne.symm (he tenantId))
  cases row with
  | none =>
    refine ⟨h.1.erase _, fun tenantId agentId => ?_⟩
    rw [← h.2]
    exact installed_congr (AList.lookup_erase_ne (hk tenantId))
  | some row =>
    refine ⟨h.1.insert fun tenantId hid => absurd hid (he tenantId), fun tenantId agentId => ?_⟩
    rw [← h.2]
    exact installed_congr (AList.lookup_insert_ne (hk tenantId))

end

/-! ## What each command does -/

section

variable [Pydantic] {t : Table} {tenantId agentId : String} {tenant : Tenant} {row : Attrs}
  {installs : String → String → Prop}

/-- The tenant's row is there and can be read. -/
def TenantRead (t : Table) (tenantId : String) (tenant : Tenant) : Prop :=
  readRow (ofItem Tenant.ofKwargs) (t.lookup (tenantKey tenantId)) = .ok (some tenant)

/-- A tenant that is read is the one that was put, under its id. -/
theorem TenantRead.kept (h : Rows PutOnce t) (hr : TenantRead t tenantId tenant) :
    ∃ row, t.lookup (tenantKey tenantId) = some row ∧ tenant.Kept row ∧ tenant.tenantId = tenantId ∧
      tenant.installedAgentIds.Nodup := by
  obtain ⟨row, hl, ho⟩ := readRow_eq_some.mp hr
  obtain ⟨put, hid, hn, hs⟩ := h.lookup (e := .tenant tenantId) hl tenantId rfl
  cases tenant_readBack hs ho
  exact ⟨row, hl, ⟨hs, ho⟩, hid, hn⟩

theorem getTenant_pages (tenantId : String) (t : Table) :
    exec onPages (getTenant tenantId) t = (readRow (ofItem Tenant.ofKwargs) (t.lookup (tenantKey tenantId)), t) := by
  have hk (f : Option Attrs → Repo (Option Tenant)) : exec onPages (call (S := Dynamo) (.getItem (tenantKey tenantId)) f) t =
      exec onPages (f (t.lookup (tenantKey tenantId))) t := rfl
  rw [getTenant, getRow_readRow]
  exact (hk _).trans (exec_ofExcept _ _ _)

omit [Pydantic] in
theorem putTenant_pages (hs : serializeDict (toDecimalDict tenant.modelDump) = some row) (t : Table) :
    exec onPages (putTenant tenant) t = (.ok (), t.insert (tenantKey tenant.tenantId) row) :=
  exec_answered (h := onPages) (o := .putItem (tenantKey tenant.tenantId) (toDecimalDict tenant.modelDump) false)
    (k := fun _ => done ()) (a := true) (by simp only [onPages, dynamo, hs, Bool.false_and]; rfl)

omit [Pydantic] in
theorem putTenant_refused (hs : serializeDict (toDecimalDict tenant.modelDump) = none) (t : Table) :
    exec onPages (putTenant tenant) t = (.error .notStorable, t) :=
  exec_raised (h := onPages) (o := .putItem (tenantKey tenant.tenantId) (toDecimalDict tenant.modelDump) false)
    (k := fun _ => done ()) (by simp only [onPages, dynamo, hs]; rfl)

/-- What is there after a call: on success what `after` says, else what was. -/
def Does {ε α : Type} (r : Except ε α × Table) (t : Table) (after : String → String → Prop) : Prop :=
  ((∃ a, r.1 = .ok a) ∧ Installs r.2 after) ∨ (∃ e, r.1 = .error e) ∧ r.2 = t

/-- A tenant whose list alone is changed can be put, and read again. -/
theorem putList_pages (h : Installs t installs) (hr : TenantRead t tenantId tenant) {ids : List String} (hn : ids.Nodup) :
    ∃ row, exec onPages (putTenant { tenant with installedAgentIds := ids }) t =
        (.ok (), t.insert (tenantKey tenantId) row) ∧
      TenantRead (t.insert (tenantKey tenantId) row) tenantId { tenant with installedAgentIds := ids } ∧
      Installs (t.insert (tenantKey tenantId) row) fun id agentId =>
        if id = tenantId then agentId ∈ ids else installs id agentId := by
  obtain ⟨row, hl, hk, rfl, -⟩ := hr.kept h.1
  obtain ⟨row', hs', ho'⟩ := hk.install ids
  refine ⟨row', putTenant_pages hs' t, ?_, h.put hn hs'⟩
  rw [TenantRead, AList.lookup_insert]
  exact readRow_eq_some.mpr ⟨row', rfl, ho'⟩

/-- What a tenant that can be read has installed. -/
theorem TenantRead.has (hr : TenantRead t tenantId tenant) (h : Installs t installs) :
    installs tenantId agentId ↔ agentId ∈ tenant.installedAgentIds := by
  obtain ⟨row, hl, hk, -, -⟩ := hr.kept h.1
  rw [← h.2, installed_put hl hk.1]

/-- A tenant that can be read has the agent uninstalled, and can be read again. -/
theorem uninstallAgent_ok (h : Installs t installs) (hr : TenantRead t tenantId tenant) (agentId : String) :
    ∃ a t', exec onPages (uninstallAgent tenantId agentId) t = (.ok a, t') ∧
      Installs t' (fun id a => installs id a ∧ ¬ (id = tenantId ∧ a = agentId)) ∧
        ∀ id, (∃ tenant, TenantRead t id tenant) → ∃ tenant, TenantRead t' id tenant := by
  have hget : exec onPages (getTenant tenantId) t = (.ok (some tenant), t) := by rw [getTenant_pages, hr]
  rw [uninstallAgent, exec_bind, hget]
  by_cases hin : agentId ∈ tenant.installedAgentIds
  · obtain ⟨-, -, -, -, hn⟩ := hr.kept h.1
    obtain ⟨row, hput, hread, hinst⟩ := putList_pages h hr (hn.filter (· ≠ agentId))
    simp only [if_pos hin, exec_bind, hput]
    refine ⟨_, _, rfl, hinst.congr fun id a => ?_, fun id hid => ?_⟩
    · by_cases hid : id = tenantId
      · subst hid
        simp [hr.has h]
      · simp [hid]
    · by_cases he : id = tenantId
      · subst he
        exact ⟨_, hread⟩
      · obtain ⟨other, ho⟩ := hid
        refine ⟨other, ?_⟩
        rw [TenantRead, AList.lookup_insert_ne]
        · exact ho
        · exact key_ne (e := .tenant id) (f := .tenant tenantId) (by simpa using he)
  · simp only [if_neg hin]
    refine ⟨_, _, rfl, h.congr fun id a => ⟨fun hi => ⟨hi, ?_⟩, And.left⟩, fun _ hid => hid⟩
    rintro ⟨rfl, rfl⟩
    exact hin ((hr.has h).mp hi)

theorem uninstallAgent_exec (h : Installs t installs) (tenantId agentId : String) :
    Does (exec onPages (uninstallAgent tenantId agentId) t) t fun id a => installs id a ∧ ¬ (id = tenantId ∧ a = agentId) := by
  cases hread : readRow (ofItem Tenant.ofKwargs) (t.lookup (tenantKey tenantId)) with
  | error e =>
    rw [uninstallAgent, exec_bind, getTenant_pages, hread]
    exact .inr ⟨⟨e, rfl⟩, rfl⟩
  | ok found =>
    cases found with
    | none =>
      rw [uninstallAgent, exec_bind, getTenant_pages, hread]
      exact .inr ⟨⟨_, rfl⟩, rfl⟩
    | some tenant =>
      obtain ⟨a, t', hex, hinst, -⟩ := uninstallAgent_ok h hread agentId
      rw [hex]
      exact .inl ⟨⟨a, rfl⟩, hinst⟩

theorem installAgent_exec (h : Installs t installs) (tenantId agentId : String) :
    Does (exec onPages (installAgent tenantId agentId) t) t fun id a => installs id a ∨ (id = tenantId ∧ a = agentId) := by
  rw [installAgent, exec_bind, getTenant_pages]
  cases hread : readRow (ofItem Tenant.ofKwargs) (t.lookup (tenantKey tenantId)) with
  | error e => exact .inr ⟨⟨e, rfl⟩, rfl⟩
  | ok found =>
    cases found with
    | none => exact .inr ⟨⟨_, rfl⟩, rfl⟩
    | some tenant =>
      have hr : TenantRead t tenantId tenant := hread
      have hlist : ∃ r, exec onPages (listAgentPackageVersions agentId) t = (r, t) := ⟨_, exec_ofExcept _ _ _⟩
      obtain ⟨versions, hlist⟩ := hlist
      simp only [exec_bind, hlist]
      cases versions with
      | error e => exact .inr ⟨⟨e, rfl⟩, rfl⟩
      | ok versions =>
        dsimp only
        split
        · exact .inr ⟨⟨_, rfl⟩, rfl⟩
        split
        · rename_i hout
          obtain ⟨-, -, -, -, hn⟩ := hr.kept h.1
          have hn' : (tenant.installedAgentIds ++ [agentId]).Nodup :=
            hn.append (List.nodup_singleton _) (List.disjoint_singleton.mpr hout)
          obtain ⟨row, hput, -, hinst⟩ := putList_pages h hr hn'
          simp only [exec_bind, hput]
          refine .inl ⟨⟨_, rfl⟩, hinst.congr fun id a => ?_⟩
          by_cases hid : id = tenantId
          · subst hid
            simp [hr.has h]
          · simp [hid]
        · rename_i hin
          refine .inl ⟨⟨_, rfl⟩, h.congr fun id a => ⟨Or.inl, ?_⟩⟩
          rintro (hi | ⟨rfl, rfl⟩)
          · exact hi
          · exact (hr.has h).mpr (not_not.mp hin)

/-! ## Unregistering -/

/-- The uninstalls of an unregistration. -/
theorem uninstalls_exec (agentId : String) {installedOn : List String} (h : Installs t installs)
    (hread : ∀ id ∈ installedOn, ∃ tenant, TenantRead t id tenant) :
    ∃ t', exec pageCalls (installedOn.forM fun tenantId => do let _ ← table (uninstallAgent tenantId agentId)) t =
        (.ok (), t') ∧ Installs t' fun id a => installs id a ∧ ¬ (id ∈ installedOn ∧ a = agentId) := by
  induction installedOn generalizing t installs with
  | nil => exact ⟨t, rfl, h.congr fun id a => by simp⟩
  | cons tenantId rest ih =>
    obtain ⟨tenant, hr⟩ := hread tenantId List.mem_cons_self
    obtain ⟨a, t₁, hex, hinst, hkeep⟩ := uninstallAgent_ok h hr agentId
    obtain ⟨t₂, hrest, hinst₂⟩ := ih hinst fun id hid => hkeep id (hread id (List.mem_cons_of_mem _ hid))
    have htable : exec pageCalls (table (uninstallAgent tenantId agentId)) t = (.ok a, t₁) := exec_table_ok .raised hex
    refine ⟨t₂, ?_, hinst₂.congr fun id a => ?_⟩
    · refine (exec_forM_cons ?_ rest).trans hrest
      rw [exec_bind, htable]
      rfl
    · rw [List.mem_cons]
      tauto

omit [Pydantic] in
/-- The deletes of `unregister` leave the installs as they are. -/
theorem deletes_exec (agentId : String) (versions : List AgentPackage) (h : Installs t installs) :
    ∃ t', exec pageCalls (versions.forM fun package => table (deleteAgentPackage agentId package.version)) t = (.ok (), t') ∧
      Installs t' installs := by
  induction versions generalizing t with
  | nil => exact ⟨t, rfl, h⟩
  | cons package rest ih =>
    have hdel : exec onPages (deleteAgentPackage agentId package.version) t =
      (.ok (), t.erase (agentPackageKey agentId package.version)) := rfl
    have htable : exec pageCalls (table (deleteAgentPackage agentId package.version)) t = _ := exec_table_ok .raised hdel
    have h' : Installs (t.erase (agentPackageKey agentId package.version)) installs :=
      h.other (e := .agentPackage agentId package.version) (fun _ he => Entity.noConfusion he) none
    obtain ⟨t', hrest, hinst⟩ := ih h'
    refine ⟨t', ?_, hinst⟩
    refine (exec_forM_cons (x := package) ?_ rest).trans hrest
    exact htable

/-- The Scan evaluates the row of every tenant that has the agent installed. -/
def Sees (t : Table) (agentId : String) : Prop :=
  ∀ tenantId, Installed t tenantId agentId → tenantKey tenantId ∈ (firstPage t.entries).map Sigma.fst

/-- The tenants listed can be read, under their ids. -/
theorem listed_readable (h : Rows PutOnce t) {tenants : List Tenant}
    (hl : exec onPages listTenants t = (.ok tenants, t)) :
    (∀ tenant ∈ tenants, TenantRead t tenant.tenantId tenant) ∧
      ∀ tenantId row, ⟨tenantKey tenantId, row⟩ ∈ firstPage t.entries → ∃ tenant ∈ tenants, TenantRead t tenantId tenant := by
  rw [listTenants_pages] at hl
  have hm := congrArg Prod.fst hl
  rw [List.mapM_map] at hm
  have hpage : ∀ r ∈ firstPage t.entries, t.lookup r.1 = some r.2 := fun r hr =>
    AList.mem_lookup_iff.mpr ((prefix_fitting _ _).subset hr)
  refine ⟨fun tenant ht => ?_, fun tenantId row hr => ?_⟩
  · obtain ⟨r, hr, hread⟩ := (mem_of_mapM hm tenant).mp ht
    obtain ⟨hr, hpre⟩ := List.mem_filter.mp hr
    have hlook := hpage r hr
    obtain ⟨e, he, hput⟩ := h r.1 r.2 hlook
    have hlists : Listing.lists .tenants e := by
      have hselects : Listing.Selects .tenants ⟨e.key, []⟩ := by
        rw [he]
        exact List.isPrefixOf_iff_prefix.mp hpre
      exact lists_of_selects (own_nil e) hselects
    cases e with
    | tenant tenantId =>
      have hlook' : TenantRead t tenantId tenant := by
        rw [TenantRead, show tenantKey tenantId = r.1 from he, hlook]
        exact readRow_eq_some.mpr ⟨r.2, rfl, hread⟩
      obtain ⟨-, -, -, hid, -⟩ := hlook'.kept h
      rwa [hid]
    | _ => cases hlists
  · have hpre : HasPrefix "TENANT#" ⟨tenantKey tenantId, row⟩ := hasPrefix_append "TENANT#" tenantId
    have hsel : ⟨tenantKey tenantId, row⟩ ∈ selectPrefix "TENANT#" (firstPage t.entries) :=
      List.mem_filter.mpr ⟨hr, List.isPrefixOf_iff_prefix.mpr hpre⟩
    obtain ⟨tenant, hread⟩ := exists_of_mapM hm _ hsel
    refine ⟨tenant, (mem_of_mapM hm tenant).mpr ⟨_, hsel, hread⟩, ?_⟩
    rw [TenantRead, hpage _ hr]
    exact readRow_eq_some.mpr ⟨row, rfl, hread⟩

theorem agentUnregister_exec (h : Installs t installs) (hs : Sees t agentId) (confirmed : Bool) :
    Does (exec pageCalls (agentUnregister agentId confirmed) t) t fun id a => installs id a ∧ a ≠ agentId := by
  obtain ⟨versions, hversions⟩ : ∃ r, exec onPages (listAgentPackageVersions agentId) t = (r, t) := ⟨_, exec_ofExcept _ _ _⟩
  obtain ⟨tenants, htenants⟩ : ∃ r, exec onPages listTenants t = (r, t) := ⟨_, exec_ofExcept _ _ _⟩
  rw [agentUnregister, exec_bind]
  cases versions with
  | error e =>
    obtain ⟨e', he⟩ := exec_table_error .raised hversions
    rw [table, client, he]
    exact .inr ⟨⟨e', rfl⟩, rfl⟩
  | ok versions =>
    rw [table, client, exec_table_ok .raised hversions]
    dsimp only
    split
    · exact .inr ⟨⟨_, rfl⟩, rfl⟩
    cases tenants with
    | error e =>
      obtain ⟨e', he⟩ := exec_table_error .raised htenants
      rw [exec_bind, table, client, he]
      exact .inr ⟨⟨e', rfl⟩, rfl⟩
    | ok tenants =>
      obtain ⟨hread, hon⟩ := listed_readable h.1 htenants
      rw [exec_bind, table, client, exec_table_ok .raised htenants]
      dsimp only
      split
      · exact .inr ⟨⟨_, rfl⟩, rfl⟩
      have hreads : ∀ id ∈ (tenants.filter fun tenant => agentId ∈ tenant.installedAgentIds).map fun tenant => tenant.tenantId,
          ∃ tenant, TenantRead t id tenant := by
        intro id hid
        obtain ⟨tenant, ht, rfl⟩ := List.mem_map.mp hid
        exact ⟨tenant, hread tenant (List.mem_of_mem_filter ht)⟩
      obtain ⟨t₁, huninstalls, h₁⟩ := uninstalls_exec agentId h hreads
      obtain ⟨t₂, hdeletes, h₂⟩ := deletes_exec agentId versions h₁
      rw [exec_bind, huninstalls]
      dsimp only
      rw [hdeletes]
      refine .inl ⟨⟨(), rfl⟩, h₂.congr fun id a => and_congr_right fun hi => ?_⟩
      refine ⟨fun hn ha => hn ⟨?_, ha⟩, fun ha hn => ha hn.2⟩
      subst ha
      -- the Scan shows the tenant, whose list is as it was read
      obtain ⟨r, hr, hk⟩ := List.mem_map.mp (hs id ((h.2 id a).mpr hi))
      obtain ⟨tenant, ht, htenant⟩ := hon id r.2 (hk ▸ hr)
      obtain ⟨-, -, -, hid, -⟩ := htenant.kept h.1
      exact List.mem_map.mpr ⟨tenant, List.mem_filter.mpr ⟨ht, decide_eq_true ((htenant.has h).mp hi)⟩, hid⟩

/-! ## Runs -/

omit [Pydantic] in
theorem Does.table {α : Type} {p : Repo α} {after : String → String → Prop} (f : Raised → CliError)
    (h : Does (exec onPages p t) t after) : Does (exec pageCalls ((repo p : Client α).mapError f) t) t after := by
  obtain ⟨⟨a, ha⟩, hinst⟩ | ⟨⟨e, he⟩, hsame⟩ := h
  · rw [exec_table_ok f (Prod.ext ha rfl)]
    exact .inl ⟨⟨a, rfl⟩, hinst⟩
  · obtain ⟨e', he'⟩ := exec_table_error f (Prod.ext he rfl)
    rw [he']
    exact .inr ⟨⟨e', rfl⟩, hsame⟩

omit [Pydantic] in
theorem Does.ignore {α : Type} {p : Cli α} {after : String → String → Prop} (h : Does (exec pageCalls p t) t after) :
    Does (exec pageCalls (do let _ ← p) t) t after := by
  rw [exec_bind]
  obtain ⟨⟨a, ha⟩, hinst⟩ | ⟨⟨e, he⟩, hsame⟩ := h
  · rw [show exec pageCalls p t = (.ok a, (exec pageCalls p t).2) from Prod.ext ha rfl]
    exact .inl ⟨⟨(), rfl⟩, hinst⟩
  · rw [show exec pageCalls p t = (.error e, (exec pageCalls p t).2) from Prod.ext he rfl]
    exact .inr ⟨⟨e, rfl⟩, hsame⟩

omit [Pydantic] in
/-- A tenant put with an empty list has nothing installed. -/
theorem putTenant_exec (h : Installs t installs) (hids : tenant.installedAgentIds = []) :
    Does (exec onPages (putTenant tenant) t) t fun id a => id ≠ tenant.tenantId ∧ installs id a := by
  cases hs : serializeDict (toDecimalDict tenant.modelDump) with
  | none =>
    rw [putTenant_refused hs]
    exact .inr ⟨⟨_, rfl⟩, rfl⟩
  | some row =>
    rw [putTenant_pages hs]
    refine .inl ⟨⟨(), rfl⟩, (h.put (by rw [hids]; exact List.nodup_nil) hs).congr fun id a => ?_⟩
    simp only [hids, List.not_mem_nil]
    split <;> simp [*]

end

/-- The commands that are about what tenants have installed. -/
inductive TenantCommand
  | add (tenantId name : String) (tier : TenantTier) (priorityKey : ℤ) (fairnessWeight : PyFloat)
    (memoryNamespace s3Prefix : String)
  | install (tenantId agentId : String)
  | uninstall (tenantId agentId : String)
  | unregister (agentId : String) (confirmed : Bool)

/-- An operation that succeeded. -/
inductive Done
  | installed (tenantId agentId : String)
  | uninstalled (tenantId agentId : String)
  | unregistered (agentId : String)
  deriving DecidableEq

/-- Whether it is about the agent on the tenant. -/
def Done.concerns (tenantId agentId : String) : Done → Bool
  | installed t a => t = tenantId ∧ a = agentId
  | uninstalled t a => t = tenantId ∧ a = agentId
  | unregistered a => a = agentId

/-- Of the operations on the agent on the tenant, the last was its install;
the last operation comes first. -/
def LastInstall (log : List Done) (tenantId agentId : String) : Prop :=
  log.find? (Done.concerns tenantId agentId) = some (.installed tenantId agentId)

def TenantCommand.done : TenantCommand → List Done
  | add .. => []
  | install tenantId agentId => [.installed tenantId agentId]
  | uninstall tenantId agentId => [.uninstalled tenantId agentId]
  | unregister agentId _ => [.unregistered agentId]

structure InstallState where
  table : Table
  /-- The operations that succeeded, the last first. -/
  log : List Done

inductive InstallAction
  | command (c : TenantCommand)
  /-- Whatever else writes or deletes a row that is no tenant's. -/
  | other (e : Entity) (he : ∀ tenantId, e ≠ .tenant tenantId) (row : Option Attrs)

section

variable [Pydantic] [Yaml] {s s' : InstallState} {history : List InstallAction}

def TenantCommand.prog : TenantCommand → Cli Unit
  | add tenantId name tier priorityKey fairnessWeight memoryNamespace s3Prefix =>
    tenantAdd tenantId name tier priorityKey fairnessWeight memoryNamespace s3Prefix
  | install tenantId agentId => tenantInstall tenantId agentId
  | uninstall tenantId agentId => tenantUninstall tenantId agentId
  | unregister agentId confirmed => agentUnregister agentId confirmed

def InstallState.step (s : InstallState) : InstallAction → Option InstallState
  | .command c =>
    let (r, t) := exec pageCalls c.prog s.table
    some { table := t, log := if r.isOk then c.done ++ s.log else s.log }
  | .other e _ row => some { s with table := row.elim (s.table.erase e.key) fun row => s.table.insert e.key row }

omit [Pydantic] [Yaml] in
/-- An `add` is of a tenant that has nothing installed, and an `unregister`
sees every tenant that has the agent. -/
def Careful (_ : List InstallAction) (s : InstallState) : InstallAction → Prop
  | .command (.add tenantId _ _ _ _ _ _) => ∀ agentId, ¬ Installed s.table tenantId agentId
  | .command (.unregister agentId _) => Sees s.table agentId
  | _ => True

/-- What is installed once a command has succeeded. -/
def TenantCommand.after (installs : String → String → Prop) : TenantCommand → String → String → Prop
  | add tenantId .. => fun id a => id ≠ tenantId ∧ installs id a
  | install tenantId agentId => fun id a => installs id a ∨ (id = tenantId ∧ a = agentId)
  | uninstall tenantId agentId => fun id a => installs id a ∧ ¬ (id = tenantId ∧ a = agentId)
  | unregister agentId _ => fun id a => installs id a ∧ a ≠ agentId

omit [Yaml] in
/-- What each command does, where `unregister` sees what it has to. -/
theorem command_exec {t : Table} {installs : String → String → Prop} (h : Installs t installs) (c : TenantCommand)
    (hs : ∀ agentId confirmed, c = .unregister agentId confirmed → Sees t agentId) :
    Does (exec pageCalls c.prog t) t (c.after installs) := by
  cases c with
  | add tenantId name tier priorityKey fairnessWeight memoryNamespace s3Prefix =>
    exact (putTenant_exec h rfl).table .raised
  | install tenantId agentId => exact ((installAgent_exec h tenantId agentId).table catchValueError).ignore
  | uninstall tenantId agentId => exact ((uninstallAgent_exec h tenantId agentId).table catchValueError).ignore
  | unregister agentId confirmed => exact agentUnregister_exec h (hs agentId confirmed rfl) confirmed

omit [Pydantic] [Yaml] in
theorem lastInstall_cons {d : Done} {log : List Done} {id a : String} :
    LastInstall (d :: log) id a ↔ if d.concerns id a then d = .installed id a else LastInstall log id a := by
  unfold LastInstall
  rw [List.find?_cons]
  cases d.concerns id a <;> simp

omit [Pydantic] [Yaml] in
/-- The log's last installs, once a command has succeeded. -/
theorem lastInstall_done {c : TenantCommand} {log : List Done} {id a : String}
    (hadd : c.done = [] → (c.after (LastInstall log) id a ↔ LastInstall log id a)) :
    c.after (LastInstall log) id a ↔ LastInstall (c.done ++ log) id a := by
  cases c with
  | add => exact hadd rfl
  | install t b =>
    rw [TenantCommand.done, List.singleton_append, lastInstall_cons]
    by_cases hc : t = id ∧ b = a
    · simp [TenantCommand.after, Done.concerns, hc]
    · have hc' : ¬ (id = t ∧ a = b) := fun h => hc ⟨h.1.symm, h.2.symm⟩
      simp [TenantCommand.after, Done.concerns, hc, hc']
  | uninstall t b =>
    rw [TenantCommand.done, List.singleton_append, lastInstall_cons]
    by_cases hc : t = id ∧ b = a
    · simp [TenantCommand.after, Done.concerns, hc]
    · have hc' : ¬ (id = t ∧ a = b) := fun h => hc ⟨h.1.symm, h.2.symm⟩
      simp [TenantCommand.after, Done.concerns, hc, hc']
  | unregister b confirmed =>
    rw [TenantCommand.done, List.singleton_append, lastInstall_cons]
    by_cases hc : b = a
    · simp [TenantCommand.after, Done.concerns, hc]
    · simp [TenantCommand.after, Done.concerns, hc, Ne.symm hc]

omit [Yaml] in
theorem installs_step {a : InstallAction} (hI : Installs s.table (LastInstall s.log)) (hc : Careful history s a)
    (hs : s.step a = some s') : Installs s'.table (LastInstall s'.log) := by
  cases a with
  | other e he row =>
    cases hs
    exact hI.other he row
  | command c =>
    simp only [InstallState.step, Option.some.injEq] at hs
    subst hs
    have hsees : ∀ agentId confirmed, c = .unregister agentId confirmed → Sees s.table agentId := by
      rintro agentId confirmed rfl
      exact hc
    obtain ⟨⟨r, hr⟩, hinst⟩ | ⟨⟨e, he⟩, hsame⟩ := command_exec hI c hsees
    · rw [hr]
      refine hinst.congr fun id a => lastInstall_done fun hdone => ?_
      cases c with
      | add tenantId =>
        refine ⟨And.right, fun h => ⟨?_, h⟩⟩
        rintro rfl
        exact hc a ((hI.2 id a).mpr h)
      | _ => cases hdone
    · rw [he, hsame]
      exact hI

omit [Pydantic] [Yaml] in
/-- No tenant has an agent installed twice. -/
theorem Installs.nodup {t : Table} {installs : String → String → Prop} (h : Installs t installs) {tenantId : String}
    {row : Attrs} {ids : List Value} (hl : t.lookup (tenantKey tenantId) = some row)
    (hids : row.lookup "installed_agent_ids" = some (.list ids)) : ids.Nodup := by
  obtain ⟨tenant, -, hn, hs⟩ := h.1.lookup (e := .tenant tenantId) hl tenantId rfl
  rw [installedIds_put hs] at hids
  cases hids
  exact hn.map fun a b h => Value.str.inj h

omit [Yaml] in
/-- While each `add` is of a tenant that has nothing installed, and each
`unregister` sees the tenants that have the agent, an agent is installed
exactly if the last operation that was about it succeeded in installing it. -/
theorem installed_iff_last (t : Table) (h : Installs t fun _ _ => False) (history : List InstallAction) (s : InstallState)
    (careful : Along InstallState.step Careful ⟨t, []⟩ history)
    (hr : Machine.run InstallState.step ⟨t, []⟩ history = some s) :
    (∀ tenantId agentId, Installed s.table tenantId agentId ↔ LastInstall s.log tenantId agentId) ∧
      ∀ tenantId row ids, s.table.lookup (tenantKey tenantId) = some row →
        row.lookup "installed_agent_ids" = some (.list ids) → ids.Nodup := by
  have hnone : Installs t (LastInstall []) := h.congr fun id a => by simp [LastInstall]
  have hstep : ∀ history s a s', Installs s.table (LastInstall s.log) → Careful history s a →
      InstallState.step s a = some s' → Installs s'.table (LastInstall s'.log) :=
    fun history s a s' hI hc hs => installs_step hI hc hs
  have hI : Installs s.table (LastInstall s.log) :=
    Machine.run_keeps_along (I := fun _ s => Installs s.table (LastInstall s.log)) hnone hstep careful hr
  exact ⟨hI.2, fun tenantId row ids => hI.nodup⟩

end

/-! ## A tenant added again -/

def addInitech (priorityKey : ℤ) : InstallAction :=
  .command (.add "initech" "Initech" .free priorityKey (.fin (.ofInt 1 Binary64.abs_one_le)) "" "")

theorem installs_empty : Installs ∅ fun _ _ => False :=
  ⟨Rows.empty, fun _ _ => iff_false_intro fun hi => by
    obtain ⟨row, ids, hl, -⟩ := hi
    cases hl⟩

/-- The row of an agent registered by its ARN. -/
def hostedRow (agentId : String) : InstallAction :=
  .other (.agentPackage agentId 1) (fun _ h => Entity.noConfusion h) (serializeDict (toDecimalDict
    (hostedPackage agentId agentId "arn:aws:bedrock-agentcore:us-east-1:1:runtime/vendorcheck" 1 "").modelDump))

/-- Two agents are installed, one of them twice. -/
def hostedInstalls : List InstallAction :=
  [addInitech 5, hostedRow "vendorcheck", hostedRow "screening", .command (.install "initech" "vendorcheck"),
    .command (.install "initech" "screening"), .command (.uninstall "initech" "vendorcheck"),
    .command (.install "initech" "vendorcheck")]

/-- A table within one page is seen whole. -/
theorem sees_of_length {t : Table} (h : (firstPage t.entries).length = t.entries.length) (agentId : String) :
    Sees t agentId := by
  rintro tenantId ⟨row, ids, hl, -⟩
  have hpage : firstPage t.entries = t.entries := (prefix_fitting _ _).eq_of_length h
  rw [hpage]
  exact List.mem_map.mpr ⟨⟨tenantKey tenantId, row⟩, AList.mem_lookup_iff.mp hl, rfl⟩

theorem installed_iff_last_initech :
    letI := digits
    letI := noYaml
    ∃ s, Machine.run InstallState.step ⟨∅, []⟩ (hostedInstalls ++ [.command (.unregister "screening" true)]) = some s ∧
      s.log.length = 5 ∧ Installed s.table "initech" "vendorcheck" ∧ ¬ Installed s.table "initech" "screening" := by
  let _ := digits
  let _ := noYaml
  have hlog : (Machine.run InstallState.step ⟨∅, []⟩ (hostedInstalls ++ [.command (.unregister "screening" true)])).map
      InstallState.log = some [.unregistered "screening", .installed "initech" "vendorcheck",
        .uninstalled "initech" "vendorcheck", .installed "initech" "screening", .installed "initech" "vendorcheck"] := by
    decide +kernel
  obtain ⟨s, hs, hlog⟩ := Option.map_eq_some_iff.mp hlog
  have hadd : Careful [] ⟨∅, []⟩ (addInitech 5) := fun agentId => (installs_empty.2 _ agentId).mp
  have hinstalls : Along InstallState.step Careful ⟨∅, []⟩ hostedInstalls := by
    refine along_cons hadd fun s₁ _ => ?_
    iterate 6 refine along_cons trivial fun _ _ => ?_
    exact along_nil _ _
  have hpage : (Machine.run InstallState.step ⟨∅, []⟩ hostedInstalls).all
      (fun s => (firstPage s.table.entries).length = s.table.entries.length) = true := by decide +kernel
  obtain ⟨s₁, h₁, -⟩ := Machine.run_snoc.mp hs
  rw [h₁, Option.all_some, decide_eq_true_iff] at hpage
  have hsees : Careful hostedInstalls s₁ (.command (.unregister "screening" true)) := sees_of_length hpage "screening"
  have careful := (Machine.along_snoc h₁).mpr ⟨hinstalls, hsees⟩
  obtain ⟨hinstalled, -⟩ := installed_iff_last ∅ installs_empty _ s careful hs
  refine ⟨s, hs, by rw [hlog]; rfl, (hinstalled _ _).mpr ?_, fun hi => ?_⟩
  · rw [LastInstall, hlog]
    decide
  · have hlast := (hinstalled _ _).mp hi
    rw [LastInstall, hlog] at hlast
    revert hlast
    decide

/-- A tenant with an agent installed is added again, with another priority. -/
def addedAgain : List InstallAction :=
  [addInitech 5, hostedRow "vendorcheck", .command (.install "initech" "vendorcheck"), addInitech 3]

def Value.isEmptyList : Value → Bool
  | .list xs => xs.isEmpty
  | _ => false

theorem not_installed_of_empty {t : Table} {tenantId agentId : String}
    (h : ((t.lookup (tenantKey tenantId) >>= List.lookup "installed_agent_ids").any Value.isEmptyList) = true) :
    ¬ Installed t tenantId agentId := by
  rintro ⟨row, ids, hl, hids, hin⟩
  rw [hl, Option.bind_eq_bind, Option.bind_some, hids, Option.any_some, Value.isEmptyList, List.isEmpty_iff] at h
  rw [h] at hin
  cases hin

/-- After the second `add` the install is gone, though it was the last operation on the pair. -/
theorem tenantAdd_uninstalls :
    letI := digits
    letI := noYaml
    ∃ s, Machine.run InstallState.step ⟨∅, []⟩ addedAgain = some s ∧
      LastInstall s.log "initech" "vendorcheck" ∧ ¬ Installed s.table "initech" "vendorcheck" := by
  let _ := digits
  let _ := noYaml
  refine ⟨_, rfl, ?_, ?_⟩
  · unfold LastInstall
    decide +kernel
  · exact not_installed_of_empty (by decide +kernel)

end ControlPlane
