import Mathlib.Order.Bounds.Basic
import ControlPlane.Registry.Rows
import ControlPlane.Registry.Scans
import ControlPlane.Sessions

/-!
# The agents in the store

`list_agents` of `app/api/routes/agents.py`: of every version of every agent,
in whatever order the rows come, one of each agent (`keepLatest`). The version
it shows is the one a session or a flood of that agent would start
(`listAgents_latest`), which takes the greatest of another listing.

* `Latest`: what the dict holds of the packages gone through so far.
* `Registered`: a package whose row is in the table and reads back.
-/

namespace ControlPlane

open Effect Effect.Prog

/-! ## The route -/

/-- A pass of the loop: `latest` is a dict, in the order of its keys. -/
def keepLatest (latest : List (String × AgentPackage)) (package : AgentPackage) : List (String × AgentPackage) :=
  match latest.lookup package.agentId with
  | none => latest ++ [(package.agentId, package)]
  | some current =>
    if current.version < package.version then
      latest.map fun entry => if entry.1 = package.agentId then (entry.1, package) else entry
    else latest

section

variable [Pydantic]

def Api.listAgents : Repo (List AgentPackage) := do
  let packages ← listAgentPackages
  return (packages.foldl keepLatest []).map Prod.snd

end

/-! ## The dict -/

section

variable {seen : List AgentPackage} {latest : List (String × AgentPackage)} {package : AgentPackage}

/-- The dict has each agent of the packages once, with the last of its versions. -/
structure Latest (seen : List AgentPackage) (latest : List (String × AgentPackage)) : Prop where
  nodup : (latest.map Prod.fst).Nodup
  own : ∀ entry ∈ latest, entry.2.agentId = entry.1 ∧ entry.2 ∈ seen
  covers : ∀ p ∈ seen, ∃ entry ∈ latest, entry.1 = p.agentId ∧ p.version ≤ entry.2.version

/-- The entries under other keys stay. -/
theorem Latest.replace (h : Latest seen latest) {current : AgentPackage} (hc : (package.agentId, current) ∈ latest)
    (hlt : current.version < package.version) : Latest (seen ++ [package])
      (latest.map fun entry => if entry.1 = package.agentId then (entry.1, package) else entry) := by
  have hkeys (entry : String × AgentPackage) :
      (if entry.1 = package.agentId then (entry.1, package) else entry).1 = entry.1 := by split <;> rfl
  refine ⟨?_, fun entry he => ?_, fun p hp => ?_⟩
  · rw [List.map_map]
    exact (List.map_congr_left fun entry _ => hkeys entry).symm ▸ h.nodup
  · obtain ⟨old, hold, rfl⟩ := List.mem_map.mp he
    obtain ⟨hid, hseen⟩ := h.own old hold
    split
    · rename_i hkey
      exact ⟨hkey.symm, List.mem_append_right _ (List.mem_singleton.mpr rfl)⟩
    · exact ⟨hid, List.mem_append_left _ hseen⟩
  · -- the package itself, or one that was covered by an entry
    have hnew : ∃ entry ∈ latest.map (fun entry => if entry.1 = package.agentId then (entry.1, package) else entry),
        entry.1 = package.agentId ∧ package.version ≤ entry.2.version :=
      ⟨(package.agentId, package), List.mem_map.mpr ⟨_, hc, if_pos rfl⟩, rfl, le_rfl⟩
    obtain hp | hp := List.mem_append.mp hp
    · obtain ⟨entry, he, hid, hle⟩ := h.covers p hp
      by_cases hkey : entry.1 = package.agentId
      · obtain ⟨new, hnew, hnid, hnle⟩ := hnew
        refine ⟨new, hnew, hnid.trans (hkey.symm.trans hid), ?_⟩
        have heq : entry.2 = current := by
          have hone := List.inj_on_of_nodup_map h.nodup he hc hkey
          rw [hone]
        rw [heq] at hle
        exact hle.trans (hlt.le.trans hnle)
      · exact ⟨entry, List.mem_map.mpr ⟨entry, he, if_neg hkey⟩, hid, hle⟩
    · rw [List.mem_singleton.mp hp]
      exact hnew

theorem Latest.keep (h : Latest seen latest) (package : AgentPackage) :
    Latest (seen ++ [package]) (keepLatest latest package) := by
  unfold keepLatest
  cases hl : latest.lookup package.agentId with
  | none =>
    have hnot : package.agentId ∉ latest.map Prod.fst := fun hmem => by
      obtain ⟨entry, he, hid⟩ := List.mem_map.mp hmem
      simpa [hid] using List.lookup_eq_none_iff.mp hl entry he
    refine ⟨?_, fun entry he => ?_, fun p hp => ?_⟩
    · rw [List.map_append, List.map_singleton]
      exact List.Nodup.append h.nodup (List.nodup_singleton _) (List.disjoint_singleton.mpr hnot)
    · obtain he | he := List.mem_append.mp he
      · exact ⟨(h.own entry he).1, List.mem_append_left _ (h.own entry he).2⟩
      · rw [List.mem_singleton.mp he]
        exact ⟨rfl, List.mem_append_right _ (List.mem_singleton.mpr rfl)⟩
    · obtain hp | hp := List.mem_append.mp hp
      · obtain ⟨entry, he, hid, hle⟩ := h.covers p hp
        exact ⟨entry, List.mem_append_left _ he, hid, hle⟩
      · rw [List.mem_singleton.mp hp]
        exact ⟨_, List.mem_append_right _ (List.mem_singleton.mpr rfl), rfl, le_rfl⟩
  | some current =>
    have hc : (package.agentId, current) ∈ latest := by
      obtain ⟨before, rest, rfl, -⟩ := List.lookup_eq_some_iff.mp hl
      exact List.mem_append_right _ List.mem_cons_self
    simp only
    split
    · rename_i hlt
      exact h.replace hc hlt
    · rename_i hnlt
      refine ⟨h.nodup, fun entry he => ⟨(h.own entry he).1, List.mem_append_left _ (h.own entry he).2⟩, fun p hp => ?_⟩
      obtain hp | hp := List.mem_append.mp hp
      · exact h.covers p hp
      · rw [List.mem_singleton.mp hp]
        exact ⟨_, hc, rfl, not_lt.mp hnlt⟩

theorem latest_foldl (packages : List AgentPackage) : Latest packages (packages.foldl keepLatest []) := by
  induction packages using List.reverseRecOn with
  | nil => exact ⟨List.nodup_nil, fun _ h => (by cases h), fun _ h => (by cases h)⟩
  | append_singleton packages package ih =>
    rw [List.foldl_append]
    exact ih.keep package

end

/-! ## The listings -/

section

variable [Pydantic]

/-- Every row of a listing comes, in any order. -/
def inOrder (page : List Row → List Row) : Handler Dynamo Raised Unit Table := fun o _ t => dynamo page t o t

/-- The package's row is in the table, and reads as the package. -/
def Registered (t : Table) (package : AgentPackage) : Prop :=
  (exec onTable (getAgentPackage package.agentId package.version) t).1 = .ok (some package)

theorem registered_iff {t : Table} {package : AgentPackage} : Registered t package ↔
    ∃ row, t.lookup (agentPackageKey package.agentId package.version) = some row ∧
      ofItem AgentPackage.ofKwargs row = .ok package := by
  simp only [Registered, getAgentPackage, exec_getRow, readRow_eq_some]

/-- Each package's row reads back, so that no listing raises. -/
def PackagesRead (t : Table) : Prop :=
  ∀ r ∈ t.entries, HasPrefix "AGENT#" r → ReadsBack (ofItem AgentPackage.ofKwargs) r

section

variable {t : Table} {page : List Row → List Row}

theorem exec_listAgentPackages (page : List Row → List Row) (t : Table) :
    exec (inOrder page) listAgentPackages t =
      (((selectPrefix "AGENT#" (page t.entries)).map Sigma.snd).mapM (ofItem AgentPackage.ofKwargs), t) :=
  exec_ofExcept _ _ _

theorem exec_listVersions (page : List Row → List Row) (agentId : String) (t : Table) :
    exec (inOrder page) (listAgentPackageVersions agentId) t =
      (((page (selectPk ("AGENT#" ++ agentId) t.entries)).map Sigma.snd).mapM (ofItem AgentPackage.ofKwargs), t) :=
  exec_ofExcept _ _ _

/-- What is read of the rows of some packages. -/
theorem packages_of_rows (hown : Rows Own t) (hread : PackagesRead t) {rows : List Row} {P : Key → Prop}
    (hrows : ∀ r, r ∈ rows ↔ r ∈ t.entries ∧ HasPrefix "AGENT#" r ∧ P r.1) :
    ∃ packages, (rows.map Sigma.snd).mapM (ofItem AgentPackage.ofKwargs) = .ok packages ∧
      ∀ p, p ∈ packages ↔ Registered t p ∧ P (agentPackageKey p.agentId p.version) := by
  have hall : ∀ row ∈ rows.map Sigma.snd, ∃ p, ofItem AgentPackage.ofKwargs row = .ok p := by
    intro row hrow
    obtain ⟨r, hr, rfl⟩ := List.mem_map.mp hrow
    obtain ⟨hmem, hp, -⟩ := (hrows r).mp hr
    exact hread r hmem hp
  obtain ⟨packages, hok⟩ := mapM_exists hall
  refine ⟨packages, hok, fun p => ?_⟩
  rw [mem_of_mapM hok, registered_iff]
  constructor
  · rintro ⟨row, hrow, hp⟩
    obtain ⟨r, hr, rfl⟩ := List.mem_map.mp hrow
    obtain ⟨hmem, hpre, hP⟩ := (hrows r).mp hr
    have hkey := agentPackageKey_of_row hown hmem hpre hp
    rw [hkey]
    exact ⟨⟨r.2, AList.mem_lookup_iff.mpr hmem, hp⟩, hP⟩
  · rintro ⟨⟨row, hlook, hp⟩, hP⟩
    refine ⟨row, List.mem_map.mpr ⟨⟨_, row⟩, (hrows _).mpr ⟨AList.mem_lookup_iff.mp hlook, ?_, hP⟩, rfl⟩, hp⟩
    exact hasPrefix_append "AGENT#" p.agentId

variable (hown : Rows Own t) (hread : PackagesRead t) (hpage : ∀ rows, (page rows).Perm rows)

include hown hread hpage

/-- The scan lists the packages that are registered. -/
theorem listAgentPackages_inOrder : ∃ packages, exec (inOrder page) listAgentPackages t = (.ok packages, t) ∧
    ∀ p, p ∈ packages ↔ Registered t p := by
  have hrows (r : Row) : r ∈ selectPrefix "AGENT#" (page t.entries) ↔ r ∈ t.entries ∧ HasPrefix "AGENT#" r ∧ True := by
    rw [selectPrefix, List.mem_filter, (hpage _).mem_iff, List.isPrefixOf_iff_prefix, and_true]
    rfl
  obtain ⟨packages, hok, hmem⟩ := packages_of_rows hown hread (P := fun _ => True) hrows
  refine ⟨packages, ?_, fun p => by rw [hmem, and_true]⟩
  rw [exec_listAgentPackages, hok]

/-- The query lists those of the agent. -/
theorem listVersions_inOrder (agentId : String) :
    ∃ packages, exec (inOrder page) (listAgentPackageVersions agentId) t = (.ok packages, t) ∧
      ∀ p, p ∈ packages ↔ Registered t p ∧ p.agentId = agentId := by
  have hrows (r : Row) : r ∈ page (selectPk ("AGENT#" ++ agentId) t.entries) ↔
      r ∈ t.entries ∧ HasPrefix "AGENT#" r ∧ r.1.pk = "AGENT#" ++ agentId := by
    rw [(hpage _).mem_iff, selectPk, List.mem_insertionSort, List.mem_filter, decide_eq_true_eq]
    refine and_congr_right fun _ => (and_iff_right_of_imp fun hpk => ?_).symm
    rw [HasPrefix, hpk, String.toList_append]
    exact List.prefix_append _ _
  obtain ⟨packages, hok, hmem⟩ := packages_of_rows hown hread (P := fun k => k.pk = "AGENT#" ++ agentId) hrows
  refine ⟨packages, ?_, fun p => (hmem p).trans (and_congr_right fun _ => ?_)⟩
  · rw [exec_listVersions, hok]
  · rw [agentPackageKey, String.append_right_inj]

end

/-! ## The version that starts -/

/-- Temporal, which keeps the input of each workflow it starts. -/
def keepsInputs : Handler Temporal Raised Unit (List AgentJobInput)
  | .connect, _, started => .ok ((), started)
  | .startWorkflow input _ _ _ _, _, started => .ok ((), input :: started)

def clockShows (instant : String) : Handler Clock Raised Unit (List AgentJobInput) := fun _ _ started => .ok (instant, started)

/-- The world a session is started in: the table, in any order, and what has
been started. -/
def starting (page : List Row → List Row) (instant : String) : Handler ClientSig Raised Unit (Table × List AgentJobInput) :=
  (inOrder page).fst.sum ((clockShows instant).sum keepsInputs).snd

omit [Pydantic] in
/-- The greatest of a list, as a fold finds it. -/
theorem foldl_max (package : AgentPackage) (packages : List AgentPackage) :
    IsGreatest {v | ∃ p ∈ package :: packages, p.version = v} (packages.foldl (fun v p => max v p.version) package.version) := by
  induction packages using List.reverseRecOn with
  | nil => exact ⟨⟨package, List.mem_cons_self, rfl⟩, fun v ⟨p, hp, hv⟩ => by rw [← hv, List.mem_singleton.mp hp]; rfl⟩
  | append_singleton packages last ih =>
    obtain ⟨⟨p, hp, hv⟩, hle⟩ := ih
    simp only [List.foldl_append, List.foldl_cons, List.foldl_nil]
    refine ⟨?_, fun v ⟨q, hq, hqv⟩ => ?_⟩
    · obtain hmax | hmax := max_choice (packages.foldl (fun v p => max v p.version) package.version) last.version
      · exact ⟨p, List.mem_append_left [last] hp, by rw [hmax, hv]⟩
      · exact ⟨last, List.mem_cons_of_mem _ (List.mem_append_right _ (List.mem_singleton.mpr rfl)), hmax.symm⟩
    · rw [← List.cons_append] at hq
      obtain hq | hq := List.mem_append.mp hq
      · exact (hle ⟨q, hq, hqv⟩).trans (le_max_left _ _)
      · rw [← hqv, List.mem_singleton.mp hq]
        exact le_max_right _ _

section

variable {t : Table} {page : List Row → List Row} {agentId : String} {version : ℤ}

/-- The greatest version of an agent that is registered. -/
def LatestVersion (t : Table) (agentId : String) (version : ℤ) : Prop :=
  IsGreatest {v | ∃ p, Registered t p ∧ p.agentId = agentId ∧ p.version = v} version

/-- `max(package.version for package in versions)` is the latest version. -/
theorem exec_latestVersion (hown : Rows Own t) (hread : PackagesRead t) (hpage : ∀ rows, (page rows).Perm rows)
    (hv : LatestVersion t agentId version) (instant : String) (started : List AgentJobInput) :
    exec (starting page instant) (latestVersion agentId) (t, started) = (.ok version, t, started) := by
  obtain ⟨packages, hlist, hmem⟩ := listVersions_inOrder hown hread hpage agentId
  obtain ⟨⟨p, hp, hid, hpv⟩, hle⟩ := hv
  cases packages with
  | nil => exact absurd ((hmem p).mpr ⟨hp, hid⟩) List.not_mem_nil
  | cons package packages =>
    have hmax := foldl_max package packages
    have heq : packages.foldl (fun v p => max v p.version) package.version = version := by
      obtain ⟨q, hq, hqv⟩ := hmax.1
      obtain ⟨hreg, hqid⟩ := (hmem q).mp hq
      exact le_antisymm (hle ⟨q, hreg, hqid, hqv⟩) (hmax.2 ⟨p, (hmem p).mpr ⟨hp, hid⟩, hpv⟩)
    unfold latestVersion
    rw [exec_bind, repo, starting, exec_inl, hlist]
    exact congrArg (fun v => (Except.ok v, t, started)) heq

/-- A call that starts no workflow but of the version. -/
def StartsVersion (version : ℤ) : ClientSig.Op → Prop
  | .inr (.inr (.startWorkflow input _ _ _ _)) => input.agentVersion = version
  | _ => True

omit [Pydantic] in
/-- Such calls leave only workflows of the version started. -/
theorem startsVersion_keeps {instant : String} (o : ClientSig.Op) (w : Table × List AgentJobInput)
    (a : ClientSig.Ans o) (w' : Table × List AgentJobInput) (ho : StartsVersion version o)
    (hw : ∀ input ∈ w.2, input.agentVersion = version) (h : starting page instant o () w = .ok (a, w')) :
    ∀ input ∈ w'.2, input.agentVersion = version := by
  obtain o | o | o := o
  · rw [(fst_ok (h := inOrder page) (o := o) h).2]
    exact hw
  · cases h
    exact hw
  · cases o with
    | connect =>
      cases h
      exact hw
    | startWorkflow input id taskQueue priority tenantId =>
      cases h
      exact List.forall_mem_cons.mpr ⟨ho, hw⟩

omit [Pydantic] in
theorem looks_starting {instant : String} (w₀ : Table × List AgentJobInput) (o : ClientSig.Op) (w : Table × List AgentJobInput)
    (a : ClientSig.Ans o) (w' : Table × List AgentJobInput) (ho : Looks o) (hw : w = w₀)
    (h : starting page instant o () w = .ok (a, w')) : w' = w₀ := by
  obtain o | o | o := o
  · obtain ⟨hr, he⟩ := fst_ok (h := inOrder page) (o := o) h
    exact (Prod.ext (dynamo_read ho hr) he).trans hw
  · cases h
    exact hw
  · exact ho.elim

/-- Every workflow a session starts is of the latest version. -/
theorem startSession_latest (hown : Rows Own t) (hread : PackagesRead t) (hpage : ∀ rows, (page rows).Perm rows)
    (hv : LatestVersion t agentId version) (instant taskQueue tenantId prompt hex : String) :
    ∀ input ∈ (exec (starting page instant) (startSession taskQueue agentId tenantId prompt hex) (t, [])).2.2,
      input.agentVersion = version := by
  have hlook : (exec (starting page instant) (repo (resolvePriority tenantId)) (t, [])).2 = (t, []) :=
    exec_of_calls (I := fun w => w = (t, [])) (looks_starting (t, [])) (looks_resolvePriority tenantId) rfl
  unfold startSession
  rw [exec_bind]
  split
  · rename_i priority w hp
    rw [hp] at hlook
    cases hlook
    rw [exec_bind, exec_latestVersion hown hread hpage hv]
    refine exec_of_calls (P := StartsVersion version) startsVersion_keeps ?_ fun _ h => by cases h
    exact ⟨trivial, fun createdAt => ⟨trivial, fun _ => ⟨trivial, fun _ => ⟨rfl, fun _ => trivial⟩⟩⟩⟩
  · rename_i e w hp
    rw [hp] at hlook
    cases hlook
    exact fun _ h => by cases h

/-- A flood's members all start the latest version. -/
theorem flood_latest (hown : Rows Own t) (hread : PackagesRead t) (hpage : ∀ rows, (page rows).Perm rows)
    (hv : LatestVersion t agentId version) (instant tenantId : String) {priority : Priority} {agentVersion : ℤ}
    (hs : (exec (starting page instant) (floodStart tenantId agentId) (t, [])).1 = .ok (priority, agentVersion)) :
    agentVersion = version ∧ ∀ taskQueue hex, Calls (StartsVersion version)
      (submitOne taskQueue tenantId agentId priority agentVersion hex) := by
  have hlook : (exec (starting page instant) (repo (resolvePriority tenantId)) (t, [])).2 = (t, []) :=
    exec_of_calls (I := fun w => w = (t, [])) (looks_starting (t, [])) (looks_resolvePriority tenantId) rfl
  have hversion : agentVersion = version := by
    unfold floodStart at hs
    rw [exec_bind] at hs
    split at hs
    · rename_i priority w hp
      rw [hp] at hlook
      cases hlook
      rw [exec_bind, exec_latestVersion hown hread hpage hv] at hs
      cases hs
      rfl
    · cases hs
  exact ⟨hversion, fun taskQueue hex => ⟨trivial, fun createdAt => ⟨trivial, fun _ => ⟨hversion, fun _ => trivial⟩⟩⟩⟩

end

/-- The store shows each agent that has a package once, at the greatest of its
versions, which is the one that a session and a flood start: in every registry
content the operations lead to, and whatever the order of the rows in each
listing, so long as the listings return. -/
theorem listAgents_latest (ops : ℕ → Operation) (sched : List (ℕ × Unit)) (hread : PackagesRead (after ops sched))
    {page page' : List Row → List Row} (hpage : ∀ rows, (page rows).Perm rows)
    (hpage' : ∀ rows, (page' rows).Perm rows) :
    ∃ shown, exec (inOrder page) Api.listAgents (after ops sched) = (.ok shown, after ops sched) ∧
      (shown.map AgentPackage.agentId).Nodup ∧
      (∀ agentId, agentId ∈ shown.map AgentPackage.agentId ↔ ∃ p, Registered (after ops sched) p ∧ p.agentId = agentId) ∧
      ∀ package ∈ shown, Registered (after ops sched) package ∧
        LatestVersion (after ops sched) package.agentId package.version ∧
        (∀ instant taskQueue tenantId prompt hex, ∀ input ∈ (exec (starting page' instant)
            (startSession taskQueue package.agentId tenantId prompt hex) (after ops sched, [])).2.2,
          input.agentVersion = package.version) ∧
        ∀ instant tenantId priority agentVersion, (exec (starting page' instant)
            (floodStart tenantId package.agentId) (after ops sched, [])).1 = .ok (priority, agentVersion) →
          agentVersion = package.version ∧ ∀ taskQueue hex, Calls (StartsVersion package.version)
            (submitOne taskQueue tenantId package.agentId priority agentVersion hex) := by
  have hown : Rows Own (after ops sched) := reachable_rows own_invariant own_nil ops sched
  obtain ⟨packages, hlist, hmem⟩ := listAgentPackages_inOrder hown hread hpage
  obtain ⟨hnodup, hentry, hcovers⟩ := latest_foldl packages
  have hids : ((packages.foldl keepLatest []).map Prod.snd).map AgentPackage.agentId =
      (packages.foldl keepLatest []).map Prod.fst := by
    rw [List.map_map]
    exact List.map_congr_left fun entry he => (hentry entry he).1
  refine ⟨(packages.foldl keepLatest []).map Prod.snd, ?_, hids ▸ hnodup, fun agentId => ?_, fun package hp => ?_⟩
  · rw [Api.listAgents, exec_bind, hlist]
    rfl
  · rw [hids]
    constructor
    · intro h
      obtain ⟨entry, he, rfl⟩ := List.mem_map.mp h
      exact ⟨entry.2, (hmem _).mp (hentry entry he).2, (hentry entry he).1⟩
    · rintro ⟨p, hp, rfl⟩
      obtain ⟨entry, he, hid, -⟩ := hcovers p ((hmem p).mpr hp)
      exact List.mem_map.mpr ⟨entry, he, hid⟩
  · obtain ⟨entry, he, rfl⟩ := List.mem_map.mp hp
    obtain ⟨hid, hseen⟩ := hentry entry he
    have hreg := (hmem _).mp hseen
    have hlatest : LatestVersion (after ops sched) entry.2.agentId entry.2.version := by
      refine ⟨⟨entry.2, hreg, rfl, rfl⟩, fun v ⟨p, hp, hpid, hpv⟩ => ?_⟩
      obtain ⟨other, ho, hoid, hle⟩ := hcovers p ((hmem p).mpr hp)
      -- the dict has one entry of the agent
      have hone : other = entry := List.inj_on_of_nodup_map hnodup ho he (hoid.trans (hpid.trans hid))
      rw [← hpv, ← hone]
      exact hle
    exact ⟨hreg, hlatest,
      fun instant taskQueue tenantId prompt hex => startSession_latest hown hread hpage' hlatest instant taskQueue tenantId prompt hex,
      fun instant tenantId priority agentVersion hs => flood_latest hown hread hpage' hlatest instant tenantId hs⟩

end

/-- Versions 9 and 10 of one agent. -/
def twoVersions (i : ℕ) : Operation := .putAgentPackage { noCodeAgent "incident-triage" with version := i + 9 }

theorem listAgents_latest_twoVersions :
    letI := digits
    let t := after twoVersions [(0, ()), (1, ())]
    ∃ shown, exec (inOrder List.reverse) Api.listAgents t = (.ok shown, t) ∧
      (shown.map AgentPackage.agentId).Nodup := by
  let _ := digits
  intro t
  have hread : PackagesRead t := by
    have hall : (t.entries.all fun r => (ofItem AgentPackage.ofKwargs r.2).toOption.isSome) = true := by decide +kernel
    intro r hr _
    have hr := List.all_eq_true.mp hall r hr
    cases h : ofItem AgentPackage.ofKwargs r.2 with
    | error e =>
      rw [h] at hr
      cases hr
    | ok p => exact ⟨p, h⟩
  obtain ⟨shown, hexec, hnodup, -⟩ := listAgents_latest twoVersions [(0, ()), (1, ())] hread List.reverse_perm List.reverse_perm
  exact ⟨shown, hexec, hnodup⟩

end ControlPlane
