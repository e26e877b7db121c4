import ControlPlane.Cli.Commands

/-!
# Publishing

What `dos agent publish` makes of a package on disk that `dos agent validate`
has nothing against: the manifest's row (`Translates`), if it can be written
(`serialize_package`).

`publish_iff`: it is converted and written as its manifest has it, exactly if
its tier is one there is and its numbers are some the table holds. The checks
ask for neither (`publish_unknownTier`).
-/

namespace ControlPlane

open Effect Effect.Prog

/-! ## The row of a manifest -/

/-- The package has what its manifest says, and the SOP as it is. -/
structure Translates (manifest : Manifest) (sop : String) (package : AgentPackage) : Prop where
  agentId : package.agentId = manifest.id
  version : package.version = manifest.version
  name : package.name = manifest.name
  tier : package.tier.value = manifest.tier
  model : package.model = manifest.model
  tools : package.tools = manifest.tools
  mcpServers : package.mcpServers = manifest.mcpServers
  parameters : package.parameters = manifest.parameters
  approvalPolicy : package.approvalPolicy = manifest.approvalPolicy
  guardrailArn : package.guardrailArn = manifest.guardrailArn
  outputModel : package.outputModel = manifest.outputModel
  systemPrompt : package.systemPrompt = sop

/-- What `AgentTier` takes. -/
def tiers : List String := [AgentTier.noCode, .customTools, .hosted].map AgentTier.value

section

variable {endpoint : Option String} {manifest : Manifest} {sop : String} {package : AgentPackage}

theorem ofValue_value {s : String} {tier : AgentTier} (h : AgentTier.ofValue (.str s) = some tier) : tier.value = s := by
  have hfound := List.find?_some h
  simpa using hfound

theorem toPackage_translates (h : toPackage endpoint manifest sop = .ok package) : Translates manifest sop package := by
  unfold toPackage agentTier at h
  cases ht : AgentTier.ofValue (.str manifest.tier) with
  | none =>
    rw [ht] at h
    cases h
  | some tier =>
    rw [ht] at h
    cases h
    exact ⟨rfl, rfl, rfl, ofValue_value ht, rfl, rfl, rfl, rfl, rfl, rfl, rfl, rfl⟩

theorem toPackage_ok : (∃ package, toPackage endpoint manifest sop = .ok package) ↔ manifest.tier ∈ tiers := by
  constructor
  · rintro ⟨package, h⟩
    rw [← (toPackage_translates h).tier]
    cases package.tier <;> decide
  · intro h
    obtain ⟨tier, -, ht⟩ := List.mem_map.mp h
    have hof : AgentTier.ofValue (.str manifest.tier) = some tier := by rw [← ht]; exact agentTier_ofValue tier
    cases hp : toPackage endpoint manifest sop with
    | ok package => exact ⟨package, rfl⟩
    | error e =>
      unfold toPackage agentTier at hp
      rw [hof] at hp
      cases hp

theorem toDecimalDict_eq_map (attrs : Attrs) : toDecimalDict attrs = attrs.map fun kv => (kv.1, toDecimal kv.2) := by
  induction attrs with
  | nil => rfl
  | cons kv rest ih =>
    rw [toDecimalDict, ih]
    rfl

theorem Plain.isSome {v : Value} (h : Plain v) : (serialize (toDecimal v)).isSome := by
  rw [h.1, h.2.1]
  rfl

/-- A float the table holds. -/
def StorableFloat (x : PyFloat) : Prop := ∃ d, x = .fin d ∧ storable d.repr

theorem serialize_float {x : PyFloat} : (serialize (toDecimal (.float x))).isSome ↔ StorableFloat x := by
  unfold StorableFloat
  rcases x with d | neg | -
  · by_cases hd : storable d.repr <;> simp [toDecimal, decimalOfFloat, Ext.map, serialize, hd]
  · simp [toDecimal, decimalOfFloat, Ext.map, serialize]
  · simp [toDecimal, decimalOfFloat, Ext.map, serialize]

theorem serialize_policy {policy : Option ApprovalPolicy} :
    (serialize (toDecimal (policy.elim .null fun a => .dict a.modelDump))).isSome ↔
      ∀ a, policy = some a → StorableFloat a.value := by
  rcases policy with _ | a
  · simp [toDecimal, serialize]
  · have hdump : (serializeDict (toDecimalDict a.modelDump)).isSome ↔ StorableFloat a.value := by
      rw [serializeDict_isSome_iff, toDecimalDict_eq_map, ApprovalPolicy.modelDump]
      simp only [List.map_cons, List.map_nil, List.forall_mem_cons, (plain_str _).isSome, serialize_float, true_and]
      exact and_iff_left (List.forall_mem_nil _)
    rw [Option.elim_some, toDecimal, serialize, Option.isSome_map, hdump]
    simp

/-- A package is written if its numbers are some the table holds. -/
theorem serialize_package : (serializeDict (toDecimalDict package.modelDump)).isSome ↔
    storableInt package.version ∧ ∀ a, package.approvalPolicy = some a → StorableFloat a.value := by
  have hversion : (serialize (toDecimal (.int package.version))).isSome ↔ storableInt package.version := by
    rw [toDecimal, serialize]
    · split <;> simp [*]
    all_goals simp
  rw [serializeDict_isSome_iff, toDecimalDict_eq_map, AgentPackage.modelDump]
  simp only [List.map_cons, List.map_nil, List.forall_mem_cons, (plain_str _).isSome, (plain_strs _).isSome,
    (plain_strDict _).isSome, (plain_dumpOption _).isSome, hversion, serialize_policy, true_and]
  exact and_congr_right fun _ => and_iff_left (List.forall_mem_nil _)

end

/-! ## Publishing what validates -/

/-- What a manifest that is published has, besides being valid. -/
structure Publishable (manifest : Manifest) : Prop where
  tier : manifest.tier ∈ tiers
  version : storableInt manifest.version
  threshold : ∀ policy, manifest.approvalPolicy = some policy → StorableFloat policy.value

section

variable [Pydantic] [Yaml]

/-- The manifest becomes a package, and `dos agent publish` writes that and
nothing else. -/
def Publishes (place : Workplace) (agentId : String) (manifest : Manifest) (sop : String) : Prop :=
  ∃ package row, toPackage place.runtimeEndpoint manifest sop = .ok package ∧ Translates manifest sop package ∧
    serializeDict (toDecimalDict package.modelDump) = some row ∧
    ∀ (t : Table) (instant : String), run commandCalls (agentPublish place agentId) [instant] t =
      (.returned (), t.insert (agentPackageKey manifest.id manifest.version) row)

variable {place : Workplace} {agentId : String} {manifest : Manifest} {sop : String}

/-- Of a package that validates, what is left of the command. -/
theorem agentPublish_eq (hv : validate place.disk agentId = .ok [])
    (hl : loadManifest place.disk agentId = .ok (manifest, sop)) :
    agentPublish place agentId = (orRaise .raised (toPackage place.runtimeEndpoint manifest sop) >>= fun package =>
      table (putAgentPackage package)) := by
  unfold agentPublish
  rw [hv, hl]
  rfl

/-- **Publishing.** A package that validates is written as its manifest has it,
exactly if it is publishable. -/
theorem publish_iff (hv : validate place.disk agentId = .ok [])
    (hl : loadManifest place.disk agentId = .ok (manifest, sop)) :
    Publishes place agentId manifest sop ↔ Publishable manifest := by
  constructor
  · rintro ⟨package, row, hp, ht, hs, -⟩
    have hrow : (serializeDict (toDecimalDict package.modelDump)).isSome := by rw [hs]; rfl
    obtain ⟨hversion, hpolicy⟩ := serialize_package.mp hrow
    rw [ht.version] at hversion
    rw [ht.approvalPolicy] at hpolicy
    exact ⟨toPackage_ok.mp ⟨package, hp⟩, hversion, hpolicy⟩
  · intro h
    obtain ⟨package, hp⟩ : ∃ package, toPackage place.runtimeEndpoint manifest sop = .ok package :=
      toPackage_ok.mpr h.tier
    have ht := toPackage_translates hp
    have hrow : (serializeDict (toDecimalDict package.modelDump)).isSome := by
      rw [serialize_package, ht.version, ht.approvalPolicy]
      exact ⟨h.version, h.threshold⟩
    obtain ⟨row, hs⟩ := Option.isSome_iff_exists.mp hrow
    refine ⟨package, row, hp, ht, hs, fun t instant => ?_⟩
    rw [agentPublish_eq hv hl, hp, ← ht.agentId, ← ht.version]
    have hput : commandCalls (.inl (.putItem (agentPackageKey package.agentId package.version)
        (toDecimalDict package.modelDump) false)) instant t =
        .ok (true, t.insert (agentPackageKey package.agentId package.version) row) := by
      simp only [commandCalls, Handler.mapError, Handler.sum, Handler.choosing, onTable, dynamo, hs]
      rfl
    exact (run_answered hput).trans rfl

end

/-! ## A tier that is none -/

/-- A YAML that reads some documents. -/
@[reducible] def yamlOf (documents : List (String × Document)) : Yaml :=
  ⟨fun text => match documents.lookup text with
    | some raw => .ok raw
    | none => .error (.yamlError "could not find expected ':'"), fun _ _ => none, fun _ => ""⟩

/-- The manifest of an agent without tools. -/
def triageManifest (tier : String) : String := "id: incident-triage\nname: Incident Triage\ntier: '" ++ tier ++ "'\n"

@[reducible] def triageYaml : Yaml := yamlOf (["1", "4"].map fun tier => (triageManifest tier,
  .dict [(.str "id", .str "incident-triage"), (.str "name", .str "Incident Triage"), (.str "tier", .str tier)]))

/-- A disk with that agent alone. -/
def triagePlace (tier : String) : Workplace where
  disk := ⟨"agents", fun directory =>
    if directory = "incident_triage" then ⟨some (.text (triageManifest tier)), some (.text "Triage it for {{tenant_id}}.")⟩
    else ⟨none, none⟩⟩
  runtimeEndpoint := none
  taskQueue := "agents"

theorem publish_iff_triage :
    letI := digits
    letI := triageYaml
    ∃ manifest sop, loadManifest (triagePlace "1").disk "incident-triage" = .ok (manifest, sop) ∧
      Publishes (triagePlace "1") "incident-triage" manifest sop := by
  let _ := digits
  let _ := triageYaml
  have hv : validate (triagePlace "1").disk "incident-triage" = .ok [] := by decide +kernel
  obtain ⟨manifest, sop, hl, -⟩ := validate_nil hv
  have hm : (loadManifest (triagePlace "1").disk "incident-triage").toOption.map
      (fun m => (m.1.tier, m.1.version, m.1.approvalPolicy)) = some ("1", 1, none) := by decide +kernel
  rw [hl] at hm
  simp only [Except.toOption, Option.map_some, Option.some.injEq, Prod.mk.injEq] at hm
  obtain ⟨htier, hversion, hpolicy⟩ := hm
  refine ⟨manifest, sop, hl, (publish_iff hv hl).mpr ⟨?_, ?_, ?_⟩⟩
  · rw [htier]
    decide
  · rw [hversion]
    decide +kernel
  · rw [hpolicy]
    exact nofun

/-- A package of a tier that is none validates, and is not published. -/
theorem publish_unknownTier :
    letI := digits
    letI := triageYaml
    validate (triagePlace "4").disk "incident-triage" = .ok [] ∧
    ∃ manifest sop, loadManifest (triagePlace "4").disk "incident-triage" = .ok (manifest, sop) ∧
      toPackage none manifest sop = .error (.valueError "'4' is not a valid AgentTier") ∧
      ¬ Publishes (triagePlace "4") "incident-triage" manifest sop := by
  let _ := digits
  let _ := triageYaml
  have hv : validate (triagePlace "4").disk "incident-triage" = .ok [] := by decide +kernel
  obtain ⟨manifest, sop, hl, -⟩ := validate_nil hv
  have hm : (loadManifest (triagePlace "4").disk "incident-triage").toOption.map (fun m => m.1.tier) = some "4" := by
    decide +kernel
  rw [hl] at hm
  have htier : manifest.tier = "4" := Option.some.inj hm
  have hp : toPackage none manifest sop = .error (.valueError "'4' is not a valid AgentTier") := by
    have ht : agentTier "4" = .error (.valueError "'4' is not a valid AgentTier") := by decide +kernel
    unfold toPackage
    rw [htier, ht]
    rfl
  refine ⟨hv, manifest, sop, hl, hp, ?_⟩
  rintro ⟨package, row, hok, -⟩
  cases hp.symm.trans hok

end ControlPlane
