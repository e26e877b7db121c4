import ControlPlane.Registry.Repository

/-!
# What is written and read back

A dict goes to the table through `_to_decimal` and boto3's serializer, and
comes back through `_from_decimal` (`Restored`). Floats become Decimals on
the way, and integral ones come back as ints; what a float field reads from
them is the float that was written (`asFloat_restored`).
-/

namespace ControlPlane

open Binary64 (Double nearest_repr)

/-! ## Dicts, item by item -/

theorem toDecimalDict_lookup (d : Attrs) (name : String) :
    (toDecimalDict d).lookup name = (d.lookup name).map toDecimal := by
  induction d with
  | nil => rfl
  | cons kv rest ih =>
    obtain ⟨k, v⟩ := kv
    simp only [toDecimalDict, List.lookup_cons]
    split
    · rfl
    · exact ih

theorem fromDecimalDict_lookup {row kw : Attrs} (h : fromDecimalDict row = some kw) (name : String) :
    kw.lookup name = row.lookup name >>= fromDecimal :=
  (lookup_mapValues fromDecimal fromDecimalDict rfl (fun _ _ _ => rfl) h name).1

theorem fromDecimalDict_isSome {row kw : Attrs} (h : fromDecimalDict row = some kw) (name : String) :
    (kw.lookup name).isSome = (row.lookup name).isSome :=
  (lookup_mapValues fromDecimal fromDecimalDict rfl (fun _ _ _ => rfl) h name).2

/-- A row is read whole or not at all. -/
theorem fromDecimalDict_isSome_iff {row : Attrs} :
    (fromDecimalDict row).isSome ↔ ∀ kv ∈ row, (fromDecimal kv.2).isSome :=
  mapValues_isSome_iff fromDecimal fromDecimalDict rfl fun _ _ _ => rfl

theorem stored_lookup {d row : Attrs} (h : serializeDict (toDecimalDict d) = some row) (name : String) :
    row.lookup name = (d.lookup name).map toDecimal >>= serialize := by
  rw [serializeDict_lookup h, toDecimalDict_lookup]

/-- `kw` is what comes back of `d`. -/
def Restored (d kw : Attrs) : Prop := ∃ row, serializeDict (toDecimalDict d) = some row ∧ fromDecimalDict row = some kw

theorem Restored.lookup {d kw : Attrs} (h : Restored d kw) (name : String) :
    kw.lookup name = (d.lookup name).map toDecimal >>= serialize >>= fromDecimal := by
  obtain ⟨row, hs, hf⟩ := h
  rw [fromDecimalDict_lookup hf, stored_lookup hs]

/-- A string comes back as it was. -/
theorem Restored.str {d kw : Attrs} (h : Restored d kw) {name s : String} (hd : d.lookup name = some (.str s)) :
    kw.lookup name = some (.str s) := by
  rw [h.lookup, hd]
  rfl

/-- A float field reads the float that was written. -/
theorem asFloat_restored [Pydantic] {x : PyFloat} {v w : Value}
    (hs : serialize (toDecimal (.float x)) = some v) (hf : fromDecimal v = some w) : asFloat w = some x := by
  cases x with
  | inf neg => cases hs
  | nan => cases hs
  | fin d =>
    simp only [toDecimal, decimalOfFloat, Ext.map, serialize] at hs
    split at hs
    · cases hs
      simp only [fromDecimal, numberOfDecimal] at hf
      split at hf
      · cases hf
      split at hf
      · rename_i hd
        cases hf
        simp only [asFloat, floatOfInt]
        rw [Rat.den_eq_one_iff _ |>.mp hd, nearest_repr]
        rfl
      · rw [nearest_repr] at hf
        cases hf
        rfl
    · cases hs

theorem Restored.float [Pydantic] {d kw : Attrs} (h : Restored d kw) {name : String} {x : PyFloat}
    (hd : d.lookup name = some (.float x)) {w : Value} (hw : kw.lookup name = some w) : asFloat w = some x := by
  rw [h.lookup, hd] at hw
  simp only [Option.map_some, Option.bind_eq_bind, Option.bind_some] at hw
  obtain ⟨v, hs, hf⟩ := Option.bind_eq_some_iff.mp hw
  exact asFloat_restored hs hf

/-! ## Models, field by field -/

theorem asStr_eq {v : Value} {s : String} (h : asStr v = some s) : v = .str s := by
  cases v with
  | str s => cases h; rfl
  | _ => cases h

theorem construct_ok {α : Type} {required : List String} {build : Attrs → Option α} {kw : Attrs} {a : α}
    (h : construct required build kw = .ok a) : build kw = some a := by
  unfold construct at h
  split at h
  · split at h
    · rename_i b hb
      cases h
      exact hb
    · cases h
  · cases h

theorem ofItem_ok {α : Type} {ofKwargs : Attrs → Except Raised α} {item : Attrs} {a : α}
    (h : ofItem ofKwargs item = .ok a) : ∃ kw, fromDecimalDict item = some kw ∧ ofKwargs kw = .ok a := by
  unfold ofItem decode at h
  cases hf : fromDecimalDict item with
  | none => rw [hf] at h; cases h
  | some kw => rw [hf] at h; exact ⟨kw, rfl, h⟩

/-- What a tenant has of its row's id. -/
theorem tenant_ofItem [Pydantic] {row : Attrs} {tenant : Tenant} (h : ofItem Tenant.ofKwargs row = .ok tenant) :
    row.lookup "tenant_id" >>= fromDecimal = some (.str tenant.tenantId) := by
  obtain ⟨kw, hf, hk⟩ := ofItem_ok h
  have hb := construct_ok hk
  simp only [field, Option.bind_eq_bind, Option.bind_eq_some_iff, Option.pure_def, Option.some.injEq] at hb
  obtain ⟨tenantId, ⟨v, hv, hs⟩, name, -, tier, -, priority, -, weight, -, memory, -, s3, -, installed, -, rfl⟩ := hb
  rw [← fromDecimalDict_lookup hf, hv, asStr_eq hs]

/-- What a package has of its row's id and version. -/
theorem package_ofItem [Pydantic] {row : Attrs} {package : AgentPackage}
    (h : ofItem AgentPackage.ofKwargs row = .ok package) :
    row.lookup "agent_id" >>= fromDecimal = some (.str package.agentId) ∧
      row.lookup "version" >>= fromDecimal >>= asInt = some package.version := by
  obtain ⟨kw, hf, hk⟩ := ofItem_ok h
  have hb := construct_ok hk
  obtain ⟨agentId, hid, hb⟩ := Option.bind_eq_some_iff.mp hb
  obtain ⟨version, hversion, hb⟩ := Option.bind_eq_some_iff.mp hb
  iterate 11 obtain ⟨_, -, hb⟩ := Option.bind_eq_some_iff.mp hb
  cases hb
  obtain ⟨v, hv, hs⟩ := Option.bind_eq_some_iff.mp hid
  obtain ⟨w, hw, hi⟩ := Option.bind_eq_some_iff.mp hversion
  refine ⟨?_, ?_⟩
  · rw [← fromDecimalDict_lookup hf, hv, asStr_eq hs]
  · rw [← fromDecimalDict_lookup hf, hw]
    exact hi

/-- An int field reads the int that was stored. -/
theorem asInt_fromDecimal [Pydantic] {n m : ℤ} (h : fromDecimal (.decimal (.fin n)) >>= asInt = some m) : m = n := by
  rw [fromDecimal, numberOfDecimal] at h
  split at h
  · cases h
  · rw [if_pos (Rat.den_intCast n)] at h
    cases h
    exact Rat.num_intCast n

/-- What a record has of its row's fields. -/
theorem record_ofItem {row : Attrs} {record : IdempotencyRecord}
    (h : ofItem IdempotencyRecord.ofKwargs row = .ok record) :
    ∃ kw, fromDecimalDict row = some kw ∧ kw.lookup "key" = some (.str record.key) ∧
      kw.lookup "status" = some (.str record.status) ∧ fieldD kw "result" none (asOption asDict) = some record.result ∧
        kw.lookup "created_at" = some (.str record.createdAt) := by
  obtain ⟨kw, hf, hk⟩ := ofItem_ok h
  have hb := construct_ok hk
  simp only [field, Option.bind_eq_bind, Option.bind_eq_some_iff, Option.pure_def, Option.some.injEq] at hb
  obtain ⟨key, ⟨u, hu, hkey⟩, status, ⟨v, hv, hs⟩, result, hr, createdAt, ⟨w, hw, hc⟩, rfl⟩ := hb
  exact ⟨kw, hf, by rw [hu, asStr_eq hkey], by rw [hv, asStr_eq hs], hr, by rw [hw, asStr_eq hc]⟩

/-! ## Tenants -/

/-- Strings are stored and read as they are. -/
theorem toDecimalList_str (xs : List String) : toDecimalList (xs.map .str) = xs.map .str := by
  induction xs with
  | nil => rfl
  | cons x xs ih => simp only [List.map_cons, toDecimalList, toDecimal, ih]

theorem serializeList_str (xs : List String) : serializeList (xs.map .str) = some (xs.map .str) := by
  induction xs with
  | nil => rfl
  | cons x xs ih => simp [serializeList, serialize, ih]

theorem fromDecimalList_str (xs : List String) : fromDecimalList (xs.map .str) = some (xs.map .str) := by
  induction xs with
  | nil => rfl
  | cons x xs ih => simp [fromDecimalList, fromDecimal, ih]

theorem mapM_asStr (xs : List String) : (xs.map Value.str).mapM asStr = some xs := by
  induction xs with
  | nil => rfl
  | cons x xs ih => simp [List.mapM_cons, asStr, ih]

theorem tier_ofValue (tier : TenantTier) : TenantTier.ofValue (.str tier.value) = some tier := by
  cases tier <;> rfl

/-- A tenant's row, with the numbers as the table holds them. -/
def tenantRow (t : Tenant) (priorityKey fairnessWeight : Value) : Attrs :=
  [("tenant_id", .str t.tenantId), ("name", .str t.name), ("tier", .str t.tier.value),
    ("priority_key", priorityKey), ("fairness_weight", fairnessWeight),
    ("memory_namespace", .str t.memoryNamespace), ("s3_prefix", .str t.s3Prefix),
    ("installed_agent_ids", .list (t.installedAgentIds.map .str))]

theorem serialize_tenant {t : Tenant} {row : Attrs} :
    serializeDict (toDecimalDict t.modelDump) = some row ↔ ∃ p w, serialize (.int t.priorityKey) = some p ∧
      serialize (toDecimal (.float t.fairnessWeight)) = some w ∧ row = tenantRow t p w := by
  have hrow : serializeDict (toDecimalDict t.modelDump) = do
      let p ← serialize (.int t.priorityKey)
      let w ← serialize (toDecimal (.float t.fairnessWeight))
      return tenantRow t p w := by
    have hint : toDecimal (.int t.priorityKey) = .int t.priorityKey := rfl
    have hids : toDecimal (.list (t.installedAgentIds.map .str)) = .list (t.installedAgentIds.map .str) := by
      rw [toDecimal, toDecimalList_str]
    simp only [Tenant.modelDump, toDecimalDict, serializeDict, hint, hids]
    generalize serialize (.int t.priorityKey) = p
    generalize serialize (toDecimal (.float t.fairnessWeight)) = w
    simp only [toDecimal, serialize, serializeList_str]
    cases p <;> cases w <;> rfl
  rw [hrow]
  simp only [Option.bind_eq_bind, Option.bind_eq_some_iff, Option.pure_def, Option.some.injEq]
  exact ⟨fun ⟨p, hp, w, hw, e⟩ => ⟨p, w, hp, hw, e.symm⟩, fun ⟨p, w, hp, hw, e⟩ => ⟨p, hp, w, hw, e.symm⟩⟩

theorem ofKwargs_tenantRow [Pydantic] {t t' : Tenant} {p w : Value} :
    Tenant.ofKwargs (tenantRow t p w) = .ok t' ↔ ∃ n x, asInt p = some n ∧ asFloat w = some x ∧
      t' = { t with priorityKey := n, fairnessWeight := x } := by
  have hrow : Tenant.ofKwargs (tenantRow t p w) =
      match asInt p, asFloat w with
      | some n, some x => .ok { t with priorityKey := n, fairnessWeight := x }
      | _, _ => .error (.validationError []) := by
    have hids : asStrList (.list (t.installedAgentIds.map .str)) = some t.installedAgentIds := mapM_asStr _
    simp only [Tenant.ofKwargs, construct, Tenant.required, tenantRow, field, fieldD, List.lookup_cons]
    cases hp : asInt p <;> cases hw : asFloat w <;> simp [hp, hw, hids, asStr, tier_ofValue]
  rw [hrow]
  cases hp : asInt p <;> cases hw : asFloat w <;> simp [eq_comm]

/-- What is read of a tenant's row is the tenant, with the numbers read. -/
theorem ofItem_tenantRow [Pydantic] {t t' : Tenant} {p w : Value} :
    ofItem Tenant.ofKwargs (tenantRow t p w) = .ok t' ↔ ∃ p' w' n x, fromDecimal p = some p' ∧ fromDecimal w = some w' ∧
      asInt p' = some n ∧ asFloat w' = some x ∧ t' = { t with priorityKey := n, fairnessWeight := x } := by
  have hdec : fromDecimalDict (tenantRow t p w) = do
      let p' ← fromDecimal p
      let w' ← fromDecimal w
      return tenantRow t p' w' := by
    simp only [tenantRow, fromDecimalDict, fromDecimal, fromDecimalList_str]
    cases fromDecimal p <;> cases fromDecimal w <;> rfl
  constructor
  · intro h
    obtain ⟨kw, hf, hk⟩ := ofItem_ok h
    rw [hdec] at hf
    obtain ⟨p', hp', hf⟩ := Option.bind_eq_some_iff.mp hf
    obtain ⟨w', hw', hf⟩ := Option.bind_eq_some_iff.mp hf
    cases hf
    obtain ⟨n, x, hn, hx, ht⟩ := ofKwargs_tenantRow.mp hk
    exact ⟨p', w', n, x, hp', hw', hn, hx, ht⟩
  · rintro ⟨p', w', n, x, hp', hw', hn, hx, ht⟩
    unfold ofItem decode
    rw [hdec, hp', hw']
    exact ofKwargs_tenantRow.mpr ⟨n, x, hn, hx, ht⟩

/-- A tenant whose row, if written, is read back as it was. -/
def Tenant.Kept [Pydantic] (t : Tenant) (row : Attrs) : Prop :=
  serializeDict (toDecimalDict t.modelDump) = some row ∧ ofItem Tenant.ofKwargs row = .ok t

/-- What is read back of a tenant that was put, if it can be read, is the
tenant. -/
theorem tenant_readBack [Pydantic] {t t' : Tenant} {row : Attrs} (hs : serializeDict (toDecimalDict t.modelDump) = some row)
    (hr : ofItem Tenant.ofKwargs row = .ok t') : t' = t := by
  obtain ⟨p, w, hp, hw, rfl⟩ := serialize_tenant.mp hs
  obtain ⟨p', w', n, x, hp', hw', hn, hx, rfl⟩ := ofItem_tenantRow.mp hr
  rw [asFloat_restored hw hw'] at hx
  cases hx
  rw [serialize] at hp
  split at hp
  · cases hp
    rw [asInt_fromDecimal (n := t.priorityKey) (m := n) (by rw [hp']; exact hn)]
  · cases hp

/-- Whether a tenant is kept does not depend on its installs. -/
theorem Tenant.Kept.install [Pydantic] {t : Tenant} {row : Attrs} (h : t.Kept row) (ids : List String) :
    ∃ row', { t with installedAgentIds := ids }.Kept row' := by
  obtain ⟨hs, hr⟩ := h
  obtain ⟨p, w, hp, hw, rfl⟩ := serialize_tenant.mp hs
  obtain ⟨p', w', n, x, hp', hw', hn, hx, ht⟩ := ofItem_tenantRow.mp hr
  refine ⟨tenantRow { t with installedAgentIds := ids } p w, serialize_tenant.mpr ⟨p, w, hp, hw, rfl⟩, ?_⟩
  refine ofItem_tenantRow.mpr ⟨p', w', n, x, hp', hw', hn, hx, ?_⟩
  rw [Tenant.mk.injEq] at ht ⊢
  simp only [ht.2.2.2.1, ht.2.2.2.2.1, and_self]

/-! ## Packages -/

/-- A value that the table holds, and gives back, as it is. -/
def Plain (v : Value) : Prop := toDecimal v = v ∧ serialize v = some v ∧ fromDecimal v = some v

theorem plain_str (s : String) : Plain (.str s) := ⟨rfl, rfl, rfl⟩

theorem plain_dumpOption (s : Option String) : Plain (dumpOption s) := by
  cases s with
  | none => exact ⟨rfl, rfl, rfl⟩
  | some s => exact plain_str s

theorem plain_strs (xs : List String) : Plain (.list (xs.map .str)) := by
  refine ⟨?_, ?_, ?_⟩
  · rw [toDecimal, toDecimalList_str]
  · rw [serialize, serializeList_str]
    rfl
  · rw [fromDecimal, fromDecimalList_str]
    rfl

theorem plain_strDict (kvs : List (String × String)) : Plain (.dict (kvs.map fun kv => (kv.1, .str kv.2))) := by
  have h : toDecimalDict (kvs.map fun kv => (kv.1, .str kv.2)) = kvs.map (fun kv => (kv.1, .str kv.2)) ∧
      serializeDict (kvs.map fun kv => (kv.1, .str kv.2)) = some (kvs.map fun kv => (kv.1, .str kv.2)) ∧
      fromDecimalDict (kvs.map fun kv => (kv.1, .str kv.2)) = some (kvs.map fun kv => (kv.1, .str kv.2)) := by
    induction kvs with
    | nil => exact ⟨rfl, rfl, rfl⟩
    | cons kv kvs ih =>
      obtain ⟨ht, hs, hf⟩ := ih
      simp [toDecimalDict, toDecimal, serializeDict, serialize, fromDecimalDict, fromDecimal, ht, hs, hf]
  obtain ⟨ht, hs, hf⟩ := h
  refine ⟨?_, ?_, ?_⟩
  · rw [toDecimal, ht]
  · rw [serialize, hs]
    rfl
  · rw [fromDecimal, hf]
    rfl

theorem Restored.plain {d kw : Attrs} (h : Restored d kw) {name : String} {v : Value} (hv : Plain v)
    (hd : d.lookup name = some v) : kw.lookup name = some v := by
  obtain ⟨ht, hs, hf⟩ := hv
  rw [h.lookup, hd, Option.map_some, ht]
  simp only [Option.bind_eq_bind, Option.bind_some, hs, hf]

/-- An int field reads the int that was written. -/
theorem Restored.int [Pydantic] {d kw : Attrs} (h : Restored d kw) {name : String} {n m : ℤ}
    (hd : d.lookup name = some (.int n)) (hm : field kw name asInt = some m) : m = n := by
  rw [field, h.lookup, hd] at hm
  simp only [Option.map_some, toDecimal, serialize, Option.bind_eq_bind, Option.bind_some] at hm
  split at hm
  · exact asInt_fromDecimal hm
  · cases hm

theorem mapM_asStrDict (kvs : List (String × String)) :
    asStrDict (.dict (kvs.map fun kv => (kv.1, .str kv.2))) = some kvs := by
  rw [asStrDict]
  induction kvs with
  | nil => rfl
  | cons kv kvs ih =>
    rw [List.map_cons, List.mapM_cons, ih]
    rfl

theorem asOption_dumpOption (s : Option String) : asOption asStr (dumpOption s) = some s := by
  cases s with
  | none => rfl
  | some s => rfl

theorem operator_ofValue (o : ApprovalOperator) : ApprovalOperator.ofValue (.str o.value) = some o := by
  cases o <;> rfl

theorem agentTier_ofValue (tier : AgentTier) : AgentTier.ofValue (.str tier.value) = some tier := by
  cases tier <;> rfl

/-- What is read back of a policy, if it can be read, is the policy. -/
theorem policy_readBack [Pydantic] {a a' : ApprovalPolicy} {kw : Attrs} (h : Restored a.modelDump kw)
    (hr : ApprovalPolicy.ofValue (.dict kw) = some a') : a' = a := by
  have hk : ApprovalPolicy.ofKwargs kw = .ok a' := by
    rw [ApprovalPolicy.ofValue] at hr
    cases ho : ApprovalPolicy.ofKwargs kw with
    | error e => rw [ho] at hr; cases hr
    | ok b => rw [ho] at hr; cases hr; rfl
  have hb := construct_ok hk
  have htool : kw.lookup "tool" = some (.str a.tool) := h.str rfl
  have hfield : kw.lookup "field" = some (.str a.field) := h.str rfl
  have hoperator : kw.lookup "operator" = some (.str a.operator.value) := h.str rfl
  have hvalue : a.modelDump.lookup "value" = some (.float a.value) := rfl
  simp only [field, htool, hfield, hoperator, Option.bind_eq_bind, Option.bind_some, asStr, operator_ofValue] at hb
  obtain ⟨x, hx, hb⟩ := Option.bind_eq_some_iff.mp hb
  obtain ⟨w, hw, hx⟩ := Option.bind_eq_some_iff.mp hx
  rw [h.float hvalue hw] at hx
  cases hx
  cases hb
  rfl

/-- A dict in a dict comes back too. -/
theorem Restored.dict {d kw m : Attrs} (h : Restored d kw) {name : String} (hd : d.lookup name = some (.dict m)) :
    ∃ kw', kw.lookup name = some (.dict kw') ∧ Restored m kw' := by
  obtain ⟨row, hs, hf⟩ := h
  have hrow := stored_lookup hs name
  have hkw := fromDecimalDict_lookup hf name
  have hsome : (row.lookup name).isSome = true := by rw [serializeDict_isSome hs, toDecimalDict_lookup, hd]; rfl
  obtain ⟨v, hv⟩ := Option.isSome_iff_exists.mp hsome
  obtain ⟨w, hw⟩ := Option.isSome_iff_exists.mp (show (kw.lookup name).isSome = true by
    rw [fromDecimalDict_isSome hf, hsome])
  rw [hd, hv] at hrow
  simp only [Option.map_some, toDecimal, Option.bind_eq_bind, Option.bind_some, serialize] at hrow
  obtain ⟨row', hs', rfl⟩ := Option.map_eq_some_iff.mp hrow.symm
  rw [hv, hw] at hkw
  simp only [Option.bind_eq_bind, Option.bind_some, fromDecimal] at hkw
  obtain ⟨kw', hf', rfl⟩ := Option.map_eq_some_iff.mp hkw.symm
  exact ⟨kw', hw, row', hs', hf'⟩

theorem policy_restored [Pydantic] {d kw : Attrs} {name : String} {a a' : Option ApprovalPolicy} (h : Restored d kw)
    (hd : d.lookup name = some (a.elim .null fun a => .dict a.modelDump))
    (hr : fieldD kw name none (asOption ApprovalPolicy.ofValue) = some a') : a' = a := by
  cases a with
  | none =>
    rw [fieldD, h.plain ⟨rfl, rfl, rfl⟩ hd] at hr
    cases hr
    rfl
  | some a =>
    obtain ⟨kw', hkw, h'⟩ := h.dict hd
    rw [fieldD, hkw] at hr
    obtain ⟨b, hb, rfl⟩ := Option.map_eq_some_iff.mp hr
    rw [policy_readBack h' hb]

/-- What is read back of a package that was put, if it can be read, is the
package. -/
theorem package_readBack [Pydantic] {p p' : AgentPackage} {row : Attrs}
    (hs : serializeDict (toDecimalDict p.modelDump) = some row) (hr : ofItem AgentPackage.ofKwargs row = .ok p') :
    p' = p := by
  obtain ⟨kw, hf, hk⟩ := ofItem_ok hr
  have h : Restored p.modelDump kw := ⟨row, hs, hf⟩
  have hstr (name : String) {s : String} (hd : p.modelDump.lookup name = some (.str s)) :
      field kw name asStr = some s := by
    rw [field, h.str hd]
    rfl
  have hoption (name : String) {s : Option String} (hd : p.modelDump.lookup name = some (dumpOption s)) :
      fieldD kw name none (asOption asStr) = some s := by
    rw [fieldD, h.plain (plain_dumpOption s) hd]
    exact asOption_dumpOption s
  have hstrs (name : String) {xs : List String} (hd : p.modelDump.lookup name = some (.list (xs.map .str))) :
      fieldD kw name [] asStrList = some xs := by
    rw [fieldD, h.plain (plain_strs xs) hd]
    exact mapM_asStr xs
  have htier : field kw "tier" AgentTier.ofValue = some p.tier := by
    rw [field, h.str (show p.modelDump.lookup "tier" = some (.str p.tier.value) from rfl)]
    exact agentTier_ofValue p.tier
  have hparameters : fieldD kw "parameters" [] asStrDict = some p.parameters := by
    rw [fieldD, h.plain (plain_strDict p.parameters)
      (show p.modelDump.lookup "parameters" = some (.dict (p.parameters.map fun kv => (kv.1, .str kv.2))) from rfl)]
    exact mapM_asStrDict p.parameters
  have hb := construct_ok hk
  simp only [hstr "agent_id" rfl, hstr "name" rfl, htier, hstr "model" rfl, hstr "system_prompt" rfl, hparameters,
    hstrs "tools" rfl, hstrs "mcp_servers" rfl, hoption "guardrail_arn" rfl, hoption "output_model" rfl,
    hoption "runtime_arn" rfl, Option.bind_eq_bind, Option.bind_some] at hb
  obtain ⟨version, hversion, hb⟩ := Option.bind_eq_some_iff.mp hb
  obtain ⟨policy, hpolicy, hb⟩ := Option.bind_eq_some_iff.mp hb
  cases h.int (n := p.version) rfl hversion
  cases policy_restored (a := p.approvalPolicy) h rfl hpolicy
  cases hb
  rfl

end ControlPlane
