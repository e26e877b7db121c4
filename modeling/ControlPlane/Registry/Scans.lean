import ControlPlane.Registry.Maps

/-!
# What a Scan lists

One Scan call evaluates 1 MB of the whole table's rows, of any kind, and only
then applies its filter (`firstPage`). `listTenants` and `listAgentPackages`
make one call each, so what they list is complete exactly if every row of
their kind that reads back is on the first page (`listings_complete_iff`).
Large job results in front of a tenant hide it (`listTenants_hidden`).
-/

namespace ControlPlane

open Effect Effect.Prog

/-! ## Pages -/

/-- A string's length in UTF-8. -/
def utf8Bytes (s : String) : ℕ := (s.toList.map Char.utf8Size).sum

/-- A number's bytes: one for every two of its significant digits, and one. -/
def numberBytes (q : ℚ) : ℕ :=
  let digits := (Nat.toDigits 10 (q.num.natAbs * 10 ^ 130 / q.den)).reverse.dropWhile (· = '0')
  (digits.length + 1) / 2 + 1

mutual

/-- The bytes of a value in the table, as DynamoDB counts them. -/
def valueBytes : Value → ℕ
  | .str s => utf8Bytes s
  | .decimal (.fin q) => numberBytes q
  | .list xs => 3 + listBytes xs
  | .dict kvs => 3 + dictBytes kvs
  | _ => 1

def listBytes : List Value → ℕ
  | [] => 0
  | x :: xs => 1 + valueBytes x + listBytes xs

def dictBytes : Attrs → ℕ
  | [] => 0
  | (k, x) :: xs => 1 + utf8Bytes k + valueBytes x + dictBytes xs

end

/-- A row's bytes: the names and the values of its keys and attributes. -/
def rowBytes (r : Row) : ℕ :=
  utf8Bytes "pk" + utf8Bytes r.1.pk + utf8Bytes "sk" + utf8Bytes r.1.sk +
    (r.2.map fun kv => utf8Bytes kv.1 + valueBytes kv.2).sum

/-- The rows that fit in so many bytes, in the table's order. -/
def fitting : ℕ → List Row → List Row
  | _, [] => []
  | bytes, r :: rows => if rowBytes r ≤ bytes then r :: fitting (bytes - rowBytes r) rows else []

/-- The rows one call evaluates: 1 MB of them. -/
def firstPage (rows : List Row) : List Row := fitting (1024 * 1024) rows

/-- The rows it leaves for `LastEvaluatedKey`. -/
def beyond (rows : List Row) : List Row := rows.drop (firstPage rows).length

/-- Calls that see the first page of the table as it is. -/
def onPages : Handler Dynamo Raised Unit Table := fun o _ t => dynamo firstPage t o t

theorem prefix_fitting (bytes : ℕ) (rows : List Row) : fitting bytes rows <+: rows := by
  induction rows generalizing bytes with
  | nil => exact List.nil_prefix
  | cons r rows ih =>
    rw [fitting]
    split
    · exact List.cons_prefix_cons.mpr ⟨rfl, ih _⟩
    · exact List.nil_prefix

theorem firstPage_append_beyond (rows : List Row) : firstPage rows ++ beyond rows = rows := by
  have hp : firstPage rows = rows.take (firstPage rows).length := List.prefix_iff_eq_take.mp (prefix_fitting _ rows)
  calc firstPage rows ++ beyond rows
      = rows.take (firstPage rows).length ++ rows.drop (firstPage rows).length := by rw [← hp, beyond]
    _ = rows := List.take_append_drop _ _

/-! ## Building a list of models -/

section

variable {α β : Type} {f : β → Except Raised α}

theorem mapM_cons_ok {x : β} {xs : List β} {zs : List α} :
    (x :: xs).mapM f = .ok zs ↔ ∃ y ys, f x = .ok y ∧ xs.mapM f = .ok ys ∧ zs = y :: ys := by
  rw [List.mapM_cons]
  cases hx : f x with
  | error e => exact ⟨fun h => (by cases h), fun ⟨y, ys, h, _⟩ => by cases h⟩
  | ok y =>
    cases hr : xs.mapM f with
    | error e => exact ⟨fun h => (by cases h), fun ⟨_, ys, _, h, _⟩ => by cases h⟩
    | ok ys =>
      refine ⟨fun h => ⟨y, ys, rfl, rfl, by cases h; rfl⟩, ?_⟩
      rintro ⟨y', ys', hy, hys, rfl⟩
      cases hy
      cases hys
      rfl

theorem mapM_exists {xs : List β} (h : ∀ x ∈ xs, ∃ y, f x = .ok y) : ∃ ys, xs.mapM f = .ok ys := by
  induction xs with
  | nil => exact ⟨[], rfl⟩
  | cons x xs ih =>
    obtain ⟨y, hy⟩ := h x List.mem_cons_self
    obtain ⟨ys, hys⟩ := ih fun z hz => h z (List.mem_cons_of_mem _ hz)
    exact ⟨y :: ys, mapM_cons_ok.mpr ⟨y, ys, hy, hys, rfl⟩⟩

theorem mem_of_mapM {xs : List β} {ys : List α} (h : xs.mapM f = .ok ys) (y : α) :
    y ∈ ys ↔ ∃ x ∈ xs, f x = .ok y := by
  induction xs generalizing ys with
  | nil => cases h; simp
  | cons x xs ih =>
    obtain ⟨z, zs, hz, hzs, rfl⟩ := mapM_cons_ok.mp h
    simp [ih hzs, hz, eq_comm]

theorem exists_of_mapM {xs : List β} {ys : List α} (h : xs.mapM f = .ok ys) : ∀ x ∈ xs, ∃ y, f x = .ok y := by
  induction xs generalizing ys with
  | nil => exact fun x hx => nomatch hx
  | cons x xs ih =>
    obtain ⟨z, zs, hz, hzs, rfl⟩ := mapM_cons_ok.mp h
    exact List.forall_mem_cons.mpr ⟨⟨z, hz⟩, ih hzs⟩

theorem map_of_mapM {γ : Type} {k : β → γ} {key : α → γ} {xs : List β} {ys : List α} (h : xs.mapM f = .ok ys)
    (hk : ∀ x ∈ xs, ∀ y, f x = .ok y → key y = k x) : ys.map key = xs.map k := by
  induction xs generalizing ys with
  | nil => cases h; rfl
  | cons x xs ih =>
    obtain ⟨z, zs, hz, hzs, rfl⟩ := mapM_cons_ok.mp h
    rw [List.map_cons, List.map_cons, hk x List.mem_cons_self z hz,
      ih hzs fun x' hx' => hk x' (List.mem_cons_of_mem _ hx')]

theorem length_of_mapM {xs : List β} {ys : List α} (h : xs.mapM f = .ok ys) : ys.length = xs.length := by
  have hmap : ys.map (fun _ => ()) = xs.map fun _ => () := map_of_mapM h fun _ _ _ _ => rfl
  simpa using congrArg List.length hmap

/-- What holds of every two, read in order, holds of what is read. -/
theorem pairwise_of_mapM {R : α → α → Prop} {xs : List β} {ys : List α} (h : xs.mapM f = .ok ys)
    (hR : xs.Pairwise fun x x' => ∀ y y', f x = .ok y → f x' = .ok y' → R y y') : ys.Pairwise R := by
  induction xs generalizing ys with
  | nil => cases h; exact .nil
  | cons x xs ih =>
    obtain ⟨z, zs, hz, hzs, rfl⟩ := mapM_cons_ok.mp h
    obtain ⟨hx, hxs⟩ := List.pairwise_cons.mp hR
    refine List.pairwise_cons.mpr ⟨fun y hy => ?_, ih hzs hxs⟩
    obtain ⟨x', hx', hread⟩ := (mem_of_mapM hzs y).mp hy
    exact hx x' hx' z y hz hread

end

/-! ## Listing what is stored -/

/-- The answer lists each model `stored` holds of once, by its key, and no others. -/
def ListsEach {α : Type} (key : α → Key) (stored : α → Prop) (answer : Except Raised (List α)) : Prop :=
  ∃ models, answer = .ok models ∧ (models.map key).Nodup ∧ ∀ a, a ∈ models ↔ stored a

/-- The row is one of the kind, and a model is read from it. -/
def ReadsBack {α : Type} (ofRow : Attrs → Except Raised α) (r : Row) : Prop := ∃ a, ofRow r.2 = .ok a

/-- A row whose partition key begins so. -/
def HasPrefix (pkPrefix : String) (r : Row) : Prop := pkPrefix.toList <+: r.1.pk.toList

theorem hasPrefix_append (pre rest : String) {sk : String} {row : Attrs} :
    HasPrefix pre ⟨⟨pre ++ rest, sk⟩, row⟩ := by
  unfold HasPrefix
  rw [String.toList_append]
  exact List.prefix_append _ _

/-- The rows of the kind that are on the first page read back, and no others do. -/
def OnFirstPage {α : Type} (pkPrefix : String) (ofRow : Attrs → Except Raised α) (t : Table) : Prop :=
  (∀ r ∈ firstPage t.entries, HasPrefix pkPrefix r → ReadsBack ofRow r) ∧
    ∀ r ∈ beyond t.entries, HasPrefix pkPrefix r → ¬ ReadsBack ofRow r

/-- Listing the rows of a kind that are on the first page is listing what is
stored of it, exactly if those read back and no others do. -/
theorem scan_listsEach {α : Type} {t : Table} {pkPrefix : String} {ofRow : Attrs → Except Raised α} {key : α → Key}
    (hpre : ∀ a row, HasPrefix pkPrefix ⟨key a, row⟩)
    (hkey : ∀ r ∈ t.entries, HasPrefix pkPrefix r → ∀ a, ofRow r.2 = .ok a → key a = r.1) :
    ListsEach key (fun a => ∃ row, t.lookup (key a) = some row ∧ ofRow row = .ok a)
      (((selectPrefix pkPrefix (firstPage t.entries)).map Sigma.snd).mapM ofRow) ↔
    OnFirstPage pkPrefix ofRow t := by
  have hsplit := firstPage_append_beyond t.entries
  have hmem (r : Row) : r ∈ selectPrefix pkPrefix (firstPage t.entries) ↔
      r ∈ firstPage t.entries ∧ HasPrefix pkPrefix r := by
    simp [selectPrefix, HasPrefix]
  have hapart : ∀ r₁ ∈ firstPage t.entries, ∀ r₂ ∈ beyond t.entries, r₁.1 ≠ r₂.1 := by
    have hn := List.nodupKeys_iff_pairwise.mp t.nodupKeys
    rw [← hsplit] at hn
    exact (List.pairwise_append.mp hn).2.2
  rw [List.mapM_map]
  constructor
  · rintro ⟨models, hok, -, hall⟩
    refine ⟨fun r hr hp => exists_of_mapM hok r ((hmem r).mpr ⟨hr, hp⟩), ?_⟩
    -- a row beyond that reads back would be listed, and so be on the page too
    rintro r hr hp ⟨a, ha⟩
    have hr' : r ∈ t.entries := hsplit ▸ List.mem_append_right _ hr
    have hka := hkey r hr' hp a ha
    have hlook : t.lookup (key a) = some r.2 := by rw [hka]; exact AList.mem_lookup_iff.mpr hr'
    obtain ⟨r₁, hr₁, ha₁⟩ := (mem_of_mapM hok a).mp ((hall a).mpr ⟨r.2, hlook, ha⟩)
    obtain ⟨hpage, hp₁⟩ := (hmem r₁).mp hr₁
    refine hapart r₁ hpage r hr ?_
    rw [← hka, hkey r₁ (hsplit ▸ List.mem_append_left _ hpage) hp₁ a ha₁]
  · rintro ⟨hon, hoff⟩
    obtain ⟨models, hok⟩ := mapM_exists fun r hr => hon r ((hmem r).mp hr).1 ((hmem r).mp hr).2
    refine ⟨models, hok, ?_, fun a => ?_⟩
    · have hkeys : models.map key = (selectPrefix pkPrefix (firstPage t.entries)).map Sigma.fst :=
        map_of_mapM hok fun r hr a ha =>
          hkey r (hsplit ▸ List.mem_append_left _ ((hmem r).mp hr).1) ((hmem r).mp hr).2 a ha
      rw [hkeys]
      have hsub : (selectPrefix pkPrefix (firstPage t.entries)).Sublist t.entries :=
        List.filter_sublist.trans (prefix_fitting _ _).sublist
      exact List.NodupKeys.sublist hsub t.nodupKeys
    · rw [mem_of_mapM hok]
      constructor
      · rintro ⟨r, hr, ha⟩
        obtain ⟨hpage, hp⟩ := (hmem r).mp hr
        have hr' : r ∈ t.entries := hsplit ▸ List.mem_append_left _ hpage
        refine ⟨r.2, ?_, ha⟩
        rw [hkey r hr' hp a ha]
        exact AList.mem_lookup_iff.mpr hr'
      · rintro ⟨row, hlook, ha⟩
        have hr : ⟨key a, row⟩ ∈ firstPage t.entries ++ beyond t.entries := by
          rw [hsplit]
          exact AList.mem_lookup_iff.mp hlook
        refine ⟨⟨key a, row⟩, (hmem _).mpr ⟨?_, hpre a row⟩, ha⟩
        exact (List.mem_append.mp hr).resolve_right fun hb => hoff _ hb (hpre a row) ⟨a, ha⟩

/-! ## The two listings -/

section

variable [Pydantic]

/-- A package read from a package's row is that package. -/
theorem own_package {agentId : String} {version : ℤ} {row : Attrs} {package : AgentPackage}
    (ho : Own (.agentPackage agentId version) row) (h : ofItem AgentPackage.ofKwargs row = .ok package) :
    package.agentId = agentId ∧ package.version = version := by
  obtain ⟨hid, hversion⟩ := package_ofItem h
  refine ⟨?_, ?_⟩
  · obtain ⟨v, hv, hf⟩ := Option.bind_eq_some_iff.mp hid
    rw [ho.agent agentId version v rfl hv] at hf
    cases hf
    rfl
  · obtain ⟨w, hw, hi⟩ := Option.bind_eq_some_iff.mp hversion
    obtain ⟨v, hv, hf⟩ := Option.bind_eq_some_iff.mp hw
    rw [ho.version agentId version v rfl hv] at hf
    exact asInt_fromDecimal (Option.bind_eq_some_iff.mpr ⟨w, hf, hi⟩)

theorem tenantKey_of_row {t : Table} (h : Rows Own t) {r : Row} (hr : r ∈ t.entries) (hp : HasPrefix "TENANT#" r)
    {tenant : Tenant} (ht : ofItem Tenant.ofKwargs r.2 = .ok tenant) : tenantKey tenant.tenantId = r.1 := by
  obtain ⟨e, hl, he⟩ := lists_of_mem (l := .tenants) h (Listing.mem_select.mpr ⟨hr, hp⟩)
  have hrow := AList.mem_lookup_iff.mpr hr
  rw [he] at hrow ⊢
  cases e with
  | tenant tenantId => rw [own_tenant (h.lookup hrow) ht]; rfl
  | _ => cases hl

theorem agentPackageKey_of_row {t : Table} (h : Rows Own t) {r : Row} (hr : r ∈ t.entries)
    (hp : HasPrefix "AGENT#" r) {package : AgentPackage} (ht : ofItem AgentPackage.ofKwargs r.2 = .ok package) :
    agentPackageKey package.agentId package.version = r.1 := by
  obtain ⟨e, hl, he⟩ := lists_of_mem (l := .agentPackages) h (Listing.mem_select.mpr ⟨hr, hp⟩)
  have hrow := AList.mem_lookup_iff.mpr hr
  rw [he] at hrow ⊢
  cases e with
  | agentPackage agentId version =>
    obtain ⟨hid, hversion⟩ := own_package (h.lookup hrow) ht
    rw [hid, hversion]
    rfl
  | _ => cases hl

theorem listTenants_pages (t : Table) : exec onPages listTenants t =
    (((selectPrefix "TENANT#" (firstPage t.entries)).map Sigma.snd).mapM (ofItem Tenant.ofKwargs), t) :=
  exec_ofExcept _ _ _

theorem listAgentPackages_pages (t : Table) : exec onPages listAgentPackages t =
    (((selectPrefix "AGENT#" (firstPage t.entries)).map Sigma.snd).mapM (ofItem AgentPackage.ofKwargs), t) :=
  exec_ofExcept _ _ _

/-- The rows an index query returns: the newest, as many as its limit and no more than 1 MB. -/
def queried (tenantId : String) (limit : ℕ) (t : Table) : List Row :=
  (firstPage (selectIndex tenantId t.entries)).take limit

theorem listJobsForTenant_pages (tenantId : String) (limit : ℕ) (t : Table) :
    exec onPages (listJobsForTenant tenantId limit) t =
      (((queried tenantId limit t).map Sigma.snd).mapM jobFromItem, t) :=
  exec_ofExcept _ _ _

omit [Pydantic] in
theorem mem_queried {tenantId : String} {limit : ℕ} {t : Table} {r : Row} (hr : r ∈ queried tenantId limit t) :
    t.lookup r.1 = some r.2 ∧ ∃ sk, indexKey r.2 = some (tenantId, sk) := by
  have hr := (prefix_fitting _ _).subset (List.mem_of_mem_take hr)
  have hr := (Listing.mem_select (l := .jobsForTenant tenantId limit)).mp hr
  exact ⟨AList.mem_lookup_iff.mpr hr.1, hr.2⟩

omit [Pydantic] in
theorem nodup_queried (tenantId : String) (limit : ℕ) (t : Table) : ((queried tenantId limit t).map Sigma.fst).Nodup := by
  have hfilter := List.NodupKeys.sublist
    (List.filter_sublist (p := fun r : Row => (indexKey r.2).any fun k => k.1 = tenantId)) t.nodupKeys
  have hselect : ((selectIndex tenantId t.entries).map Sigma.fst).Nodup :=
    ((List.perm_insertionSort _ _).map Sigma.fst).nodup_iff.mpr hfilter
  exact hselect.sublist (((List.take_sublist _ _).trans (prefix_fitting _ _).sublist).map Sigma.fst)

/-- The listings are complete, each tenant and each package version once and
no other, exactly if the rows that read back are those on the first page. -/
theorem listings_complete_iff {t : Table} (h : Rows Own t) :
    (ListsEach (fun tenant => tenantKey tenant.tenantId)
        (fun tenant => (exec onTable (getTenant tenant.tenantId) t).1 = .ok (some tenant))
        (exec onPages listTenants t).1 ↔ OnFirstPage "TENANT#" (ofItem Tenant.ofKwargs) t) ∧
    (ListsEach (fun package => agentPackageKey package.agentId package.version)
        (fun package => (exec onTable (getAgentPackage package.agentId package.version) t).1 = .ok (some package))
        (exec onPages listAgentPackages t).1 ↔ OnFirstPage "AGENT#" (ofItem AgentPackage.ofKwargs) t) := by
  simp only [getTenant, getAgentPackage, exec_getRow, readRow_eq_some, listTenants_pages, listAgentPackages_pages]
  constructor
  · refine scan_listsEach (fun tenant row => ?_) fun r hr hp _ ht => tenantKey_of_row h hr hp ht
    exact hasPrefix_append "TENANT#" tenant.tenantId
  · refine scan_listsEach (fun package row => ?_) fun r hr hp _ ht => agentPackageKey_of_row h hr hp ht
    exact hasPrefix_append "AGENT#" package.agentId

end

/-! ## A tenant that is not listed -/

def acme : Tenant where
  tenantId := "acme"
  name := "Acme"
  tier := .standard
  priorityKey := 3
  fairnessWeight := .fin (.ofInt 1 Binary64.abs_one_le)
  memoryNamespace := "acme"
  s3Prefix := "tenants/acme/"

@[irreducible] def acmeAttrs : Attrs := (serializeDict (toDecimalDict acme.modelDump)).getD []

def acmeRow : Row := ⟨tenantKey "acme", acmeAttrs⟩

/-- A job's result with a text for its output. -/
def textResult (jobId text : String) : JobResult where
  jobId := jobId
  output := [("text", .str text)]
  completedAt := "2026-10-01T09:00:00+00:00"

/-- The attributes of its row. -/
def textAttrs (jobId text : String) : Attrs :=
  [("job_id", .str jobId), ("output", .dict [("text", .str text)]), ("output_ref", .null),
    ("completed_at", .str "2026-10-01T09:00:00+00:00")]

theorem textAttrs_stored (jobId text : String) :
    serializeDict (toDecimalDict (textResult jobId text).modelDump) = some (textAttrs jobId text) := rfl

/-- A text of some 390 kB: DynamoDB takes rows of up to 400. -/
@[irreducible] def largeText : String := String.ofList (List.replicate 390000 'a')

def largeRow (jobId : String) : Row := ⟨jobResultKey jobId, textAttrs jobId largeText⟩

def returnsPackage : AgentPackage where
  agentId := "returns-triage"
  version := 2
  name := "Returns triage"
  tier := .noCode
  model := "bedrock-claude"
  systemPrompt := "Triage the return."

@[irreducible] def returnsAttrs : Attrs := (serializeDict (toDecimalDict returnsPackage.modelDump)).getD []

def returnsRow : Row := ⟨agentPackageKey "returns-triage" 2, returnsAttrs⟩

def smallRow : Row := ⟨jobResultKey "job-1", textAttrs "job-1" "Refunded."⟩

/-- A tenant and a package, among rows of other kinds. -/
def fewRows : Table :=
  ⟨[smallRow, returnsRow, ⟨fairnessKey, [("enabled", .bool true)]⟩, acmeRow], by unfold List.NodupKeys; decide +kernel⟩

def crowded : Table := ⟨[largeRow "1", largeRow "2", largeRow "3", acmeRow], by unfold List.NodupKeys; decide +kernel⟩

theorem own_getD {e : Entity} {attrs : Attrs} (hst : Stored e attrs) (hs : (serializeDict attrs).isSome) :
    Own e ((serializeDict attrs).getD []) := by
  obtain ⟨row, hrow⟩ := Option.isSome_iff_exists.mp hs
  rw [hrow]
  exact own_stored hst hrow

theorem acmeAttrs_own : Own (.tenant "acme") acmeAttrs := by
  unfold acmeAttrs
  exact own_getD (.tenant acme) (by decide +kernel)

theorem returnsAttrs_own : Own (.agentPackage "returns-triage" 2) returnsAttrs := by
  unfold returnsAttrs
  exact own_getD (.agentPackage returnsPackage) (by decide +kernel)

theorem readsBack_of_isSome {α : Type} {ofRow : Attrs → Except Raised α} {r : Row} (h : (ofRow r.2).toOption.isSome) :
    ReadsBack ofRow r := by
  unfold ReadsBack
  cases hr : ofRow r.2 with
  | error e =>
    rw [hr] at h
    cases h
  | ok a => exact ⟨a, rfl⟩

theorem acmeRow_readsBack : @ReadsBack Tenant (@ofItem Tenant (@Tenant.ofKwargs digits)) acmeRow :=
  readsBack_of_isSome (by decide +kernel)

theorem returnsRow_readsBack : @ReadsBack AgentPackage (@ofItem AgentPackage (@AgentPackage.ofKwargs digits)) returnsRow :=
  readsBack_of_isSome (by decide +kernel)

theorem fitting_all {bytes : ℕ} {rows : List Row} (h : (rows.map rowBytes).sum ≤ bytes) : fitting bytes rows = rows := by
  induction rows generalizing bytes with
  | nil => rfl
  | cons r rows ih =>
    rw [List.map_cons, List.sum_cons] at h
    rw [fitting, if_pos (by omega), ih (by omega)]

theorem utf8Bytes_replicate (n : ℕ) : utf8Bytes (String.ofList (List.replicate n 'a')) = n := by
  rw [utf8Bytes, String.toList_ofList, List.map_replicate, List.sum_replicate]
  exact Nat.mul_one n

theorem utf8Bytes_largeText : utf8Bytes largeText = 390000 := by
  unfold largeText
  exact utf8Bytes_replicate 390000

theorem textAttrs_bytes (key : Key) (jobId text : String) :
    utf8Bytes text ≤ rowBytes ⟨key, textAttrs jobId text⟩ := by
  simp only [rowBytes, textAttrs, List.map_cons, List.sum_cons, valueBytes, dictBytes]
  omega

theorem largeRow_bytes (jobId : String) : 390000 ≤ rowBytes (largeRow jobId) := by
  have h := textAttrs_bytes (jobResultKey jobId) jobId largeText
  rw [utf8Bytes_largeText] at h
  exact h

/-- The results in front of the tenant leave it no room on the first page. -/
theorem firstPage_crowded : selectPrefix "TENANT#" (firstPage crowded.entries) = [] := by
  have h₁ := largeRow_bytes "1"
  have h₂ := largeRow_bytes "2"
  have h₃ := largeRow_bytes "3"
  have hresult (jobId : String) : "TENANT#".toList.isPrefixOf (largeRow jobId).1.pk.toList = false := by
    simp [largeRow, jobResultKey, String.toList_append, List.isPrefixOf]
  simp only [firstPage, crowded, fitting]
  split_ifs with hb₁ hb₂ hb₃
  · omega
  · omega
  · simp only [selectPrefix, List.filter_cons, hresult]
    rfl
  · simp only [selectPrefix, List.filter_cons, hresult]
    rfl
  · rfl

theorem crowded_own : Rows Own crowded := by
  have hresult (jobId : String) : ∃ e : Entity, e.key = (largeRow jobId).1 ∧ Own e (largeRow jobId).2 :=
    ⟨.jobResult jobId, rfl, own_stored (.jobResult (textResult jobId largeText)) (textAttrs_stored jobId largeText)⟩
  have hrows : ∀ r ∈ crowded.entries, ∃ e : Entity, e.key = r.1 ∧ Own e r.2 := by
    refine List.forall_mem_cons.mpr ⟨hresult "1", List.forall_mem_cons.mpr ⟨hresult "2", ?_⟩⟩
    exact List.forall_mem_cons.mpr ⟨hresult "3", List.forall_mem_singleton.mpr ⟨.tenant "acme", rfl, acmeAttrs_own⟩⟩
  exact fun key row h => hrows ⟨key, row⟩ (AList.mem_lookup_iff.mp h)

theorem fewRows_own : Rows Own fewRows := by
  have hsmall : Own (.jobResult "job-1") smallRow.2 :=
    own_stored (.jobResult (textResult "job-1" "Refunded.")) (textAttrs_stored "job-1" "Refunded.")
  have hfairness : Own .fairness [("enabled", .bool true)] := own_stored (.fairness { enabled := true }) rfl
  have hrows : ∀ r ∈ fewRows.entries, ∃ e : Entity, e.key = r.1 ∧ Own e r.2 := by
    refine List.forall_mem_cons.mpr ⟨⟨_, rfl, hsmall⟩, List.forall_mem_cons.mpr ⟨⟨_, rfl, returnsAttrs_own⟩, ?_⟩⟩
    exact List.forall_mem_cons.mpr ⟨⟨_, rfl, hfairness⟩, List.forall_mem_singleton.mpr ⟨_, rfl, acmeAttrs_own⟩⟩
  exact fun key row h => hrows ⟨key, row⟩ (AList.mem_lookup_iff.mp h)

/-- All rows are on the first page. -/
theorem onFirstPage_few {α : Type} {pkPrefix : String} {ofRow : Attrs → Except Raised α}
    (h : ∀ r ∈ fewRows.entries, HasPrefix pkPrefix r → ReadsBack ofRow r) : OnFirstPage pkPrefix ofRow fewRows := by
  have hpage : firstPage fewRows.entries = fewRows.entries := fitting_all (by decide +kernel)
  refine ⟨?_, ?_⟩
  · rw [hpage]
    exact h
  · rw [beyond, hpage, List.drop_length]
    exact fun r hr => nomatch hr

theorem listings_complete_few :
    letI := digits
    ListsEach (fun tenant => tenantKey tenant.tenantId)
        (fun tenant => (exec onTable (getTenant tenant.tenantId) fewRows).1 = .ok (some tenant))
        (exec onPages listTenants fewRows).1 ∧
      ListsEach (fun package => agentPackageKey package.agentId package.version)
        (fun package => (exec onTable (getAgentPackage package.agentId package.version) fewRows).1 = .ok (some package))
        (exec onPages listAgentPackages fewRows).1 := by
  let _ := digits
  have hcomplete := listings_complete_iff fewRows_own
  have hother {pkPrefix : String} {r : Row} {P : Prop} (h : pkPrefix.toList.isPrefixOf r.1.pk.toList = false)
      (hp : HasPrefix pkPrefix r) : P := by
    cases (List.isPrefixOf_iff_prefix.mpr hp).symm.trans h
  refine ⟨hcomplete.1.mpr (onFirstPage_few ?_), hcomplete.2.mpr (onFirstPage_few ?_)⟩
  · refine List.forall_mem_cons.mpr ⟨hother rfl, List.forall_mem_cons.mpr ⟨hother rfl, ?_⟩⟩
    exact List.forall_mem_cons.mpr ⟨hother rfl, List.forall_mem_singleton.mpr fun _ => acmeRow_readsBack⟩
  · refine List.forall_mem_cons.mpr ⟨hother rfl, List.forall_mem_cons.mpr ⟨fun _ => returnsRow_readsBack, ?_⟩⟩
    exact List.forall_mem_cons.mpr ⟨hother rfl, List.forall_mem_singleton.mpr (hother rfl)⟩

theorem listTenants_hidden :
    letI := digits
    Rows Own crowded ∧ (exec onPages listTenants crowded).1 = .ok [] ∧
    ¬ ListsEach (fun tenant => tenantKey tenant.tenantId)
      (fun tenant => (exec onTable (getTenant tenant.tenantId) crowded).1 = .ok (some tenant))
      (exec onPages listTenants crowded).1 := by
  let _ := digits
  have hlist : (exec onPages listTenants crowded).1 = .ok [] := by
    rw [listTenants_pages, firstPage_crowded]
    rfl
  refine ⟨crowded_own, hlist, ?_⟩
  rintro ⟨models, hok, -, hall⟩
  obtain ⟨tenant, ht⟩ := acmeRow_readsBack
  have hmem : acmeRow ∈ crowded.entries :=
    List.mem_cons_of_mem _ (List.mem_cons_of_mem _ (List.mem_cons_of_mem _ List.mem_cons_self))
  have hlook : crowded.lookup (tenantKey "acme") = some acmeAttrs := AList.mem_lookup_iff.mpr hmem
  have hstored : (exec onTable (getTenant tenant.tenantId) crowded).1 = .ok (some tenant) := by
    rw [own_tenant acmeAttrs_own ht, getTenant, exec_getRow]
    exact readRow_eq_some.mpr ⟨acmeAttrs, hlook, ht⟩
  rw [hlist] at hok
  cases hok
  exact absurd ((hall tenant).mpr hstored) List.not_mem_nil

end ControlPlane
