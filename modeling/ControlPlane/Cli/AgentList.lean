import ControlPlane.Lib.Program
import ControlPlane.Registry.Validate
import ControlPlane.Cli.Publish

/-!
# Malformed packages

`agent list` of `cli/main.py` (`agentList`), which prints a line for each
package on disk and goes on where one is not loaded for a ManifestError.

`malformed_reported_iff`: a package is loaded under its id or is reported, by
`loadManifest`, by `validate` and by `agent list`, exactly if what its files
hold is `Handled`: they are text, YAML's loader raises nothing but its
YAMLError, the document is nothing or a mapping with strings for keys, and the
version it gives has no more digits than Python writes. Of any other an
exception leaves `agent list`, which stops there; that of a version leaves only
the list, the others the loader and the validation too.
-/

namespace ControlPlane

open Effect Effect.Prog

/-! ## The command -/

/-- `typer.echo(line)`. -/
def EchoSig : Sig := ⟨String, fun _ => Unit⟩

/-- What ends the command. -/
inductive ListError
  | load (e : LoadError)
  /-- An int that is too long to be written. -/
  | valueError
  deriving DecidableEq

def echo (line : String) : Prog EchoSig ListError Unit := op (S := EchoSig) line

/-- The lines that are printed. -/
def printing : Handler EchoSig ListError Unit (List String) := fun (line : String) _ printed =>
  .ok ((), printed ++ [line])

/-- `f"{agent_id:24s}"`. -/
def padded (agentId : String) : String := agentId ++ String.ofList (List.replicate (24 - agentId.length) ' ')

section

variable [Pydantic] [Yaml]

def listPackage (disk : Disk) (agentId : String) : Prog EchoSig ListError Unit :=
  match loadManifest disk agentId with
  | .ok (manifest, _) =>
    match intStr manifest.version with
    | some version => echo (padded agentId ++ " v" ++ version ++ "  tier " ++ manifest.tier ++ "  " ++ manifest.name)
    | none => fail .valueError
  | .error (.manifestError _) => echo (padded agentId ++ " INVALID")
  | .error e => fail (.load e)

def agentList (agents : AgentsDir) : Prog EchoSig ListError Unit :=
  match discover agents with
  | [] => echo "no agent packages found"
  | ids => ids.forM (listPackage agents.toDisk)

/-! ## What is reported -/

/-- A package is loaded under its id or is reported: by the loader, by the
validation, and by a line of the list, which goes on. -/
structure Reported (disk : Disk) (agentId : String) : Prop where
  load : Reports (fun loaded => loaded.1.id = agentId) (loadManifest disk agentId)
  validate : ∃ problems, validate disk agentId = .ok problems
  list : ∀ ids printed, ∃ line, exec printing ((agentId :: ids).forM (listPackage disk)) printed =
    exec printing (ids.forM (listPackage disk)) (printed ++ [line])

/-- The document is this manifest, of this id. -/
def Describes (raw : Document) (agentId : String) (manifest : Manifest) : Prop :=
  raw.orEmpty.keywords >>= Manifest.ofDocuments = some manifest ∧ manifest.id = agentId

/-- The list has a line for the manifest. -/
def Listable (manifest : Manifest) : Prop := (intStr manifest.version).isSome

/-- What the files of a package hold, where both are there, is a package that
can be listed, or fails in a way that is translated. -/
def Handled (files : PackageFiles) (agentId : String) : Prop :=
  ∀ manifestFile ∈ files.manifest, ∀ sopFile ∈ files.sop, ∃ text, manifestFile = .text text ∧
    Yaml.safeLoad text ≠ .error .other ∧ ∀ raw, Yaml.safeLoad text = .ok raw →
      raw.Named ∧ ∀ manifest, Describes raw agentId manifest → (∃ sop, sopFile = .text sop) ∧ Listable manifest

variable {disk : Disk} {agentId : String}

omit [Pydantic] [Yaml] in
/-- Of a manifest that is built, what is left is its id and the SOP's text. -/
theorem reports_checked {Q : Manifest → Prop} {manifest : Manifest} {sopFile : Content} {message : String} :
    Reports (fun loaded => loaded.1.id = agentId ∧ Q loaded.1)
        (if manifest.id ≠ agentId then .error (.manifestError message)
          else sopFile.readText >>= fun sop => return (manifest, sop)) ↔
      (manifest.id = agentId → (∃ sop, sopFile = .text sop) ∧ Q manifest) := by
  by_cases hid : manifest.id = agentId
  · rw [if_neg (not_not.mpr hid), reports_bind, reports_readText]
    exact ⟨fun ⟨sop, hs, _, hq⟩ _ => ⟨⟨sop, hs⟩, hq⟩, fun h => (h hid).1.imp fun sop hs => ⟨hs, hid, (h hid).2⟩⟩
  · rw [if_pos hid]
    exact iff_of_true trivial fun h => absurd h hid

/-- The loader returns a manifest of the id that was asked for, which can be
listed, or raises a ManifestError, exactly if the files are handled. -/
theorem reports_loadManifest :
    Reports (fun loaded => loaded.1.id = agentId ∧ Listable loaded.1) (loadManifest disk agentId) ↔
      Handled (disk.package (packageDir agentId)) agentId := by
  unfold loadManifest Handled
  simp only [reports_bind, reports_found, reports_readText, reports_loadYaml, reports_buildManifest, reports_checked,
    Document.keywords_isSome]
  refine forall₄_congr fun manifestFile hm sopFile hs => exists_congr fun text => and_congr_right' ?_
  refine and_congr_right' (forall₂_congr fun raw hraw => and_congr_right' (forall_congr' fun manifest => ?_))
  exact and_imp.symm

omit [Pydantic] [Yaml] in
theorem ok_of_bind {ε α β : Type} {r : Except ε α} {f : α → Except ε β} {b : β} (h : r >>= f = .ok b) :
    ∃ a, r = .ok a ∧ f a = .ok b := by
  cases r with
  | ok a => exact ⟨a, rfl, h⟩
  | error e => cases h

/-- A manifest that is loaded has the id that was asked for. -/
theorem loadManifest_id {loaded : Manifest × String} (h : loadManifest disk agentId = .ok loaded) :
    loaded.1.id = agentId := by
  obtain ⟨manifestFile, -, h⟩ := ok_of_bind h
  obtain ⟨sopFile, -, h⟩ := ok_of_bind h
  obtain ⟨text, -, h⟩ := ok_of_bind h
  obtain ⟨raw, -, h⟩ := ok_of_bind h
  obtain ⟨manifest, -, h⟩ := ok_of_bind h
  split at h
  · cases h
  · rename_i hid
    obtain ⟨sop, -, h⟩ := ok_of_bind h
    cases h
    exact not_not.mp hid

theorem loaded_or_reported (h : Handled (disk.package (packageDir agentId)) agentId) :
    (∃ manifest sop, loadManifest disk agentId = .ok (manifest, sop) ∧ manifest.id = agentId ∧ Listable manifest) ∨
      ∃ message, loadManifest disk agentId = .error (.manifestError message) := by
  have hr := reports_loadManifest.mpr h
  cases hl : loadManifest disk agentId with
  | ok loaded =>
    rw [hl] at hr
    exact .inl ⟨loaded.1, loaded.2, rfl, hr⟩
  | error e =>
    rw [hl] at hr
    cases e with
    | manifestError message => exact .inr ⟨message, rfl⟩
    | _ => exact hr.elim

/-! ## The list -/

theorem listPackage_line (h : Handled (disk.package (packageDir agentId)) agentId) :
    ∃ line, ∀ printed, exec printing (listPackage disk agentId) printed = (.ok (), printed ++ [line]) := by
  unfold listPackage
  obtain ⟨manifest, sop, hl, -, hlist⟩ | ⟨message, hl⟩ := loaded_or_reported h
  · obtain ⟨version, hv⟩ := Option.isSome_iff_exists.mp hlist
    simp only [hl, hv]
    exact ⟨_, fun _ => rfl⟩
  · rw [hl]
    exact ⟨_, fun _ => rfl⟩

theorem listPackage_returns (printed : List String) :
    (exec printing (listPackage disk agentId) printed).1 = .ok () ↔
      Handled (disk.package (packageDir agentId)) agentId := by
  constructor
  · intro h
    refine reports_loadManifest.mp ?_
    unfold listPackage at h
    cases hl : loadManifest disk agentId with
    | ok loaded =>
      rw [hl] at h
      refine ⟨loadManifest_id hl, ?_⟩
      cases hv : intStr loaded.1.version with
      | some version => exact Option.isSome_iff_exists.mpr ⟨version, hv⟩
      | none =>
        simp only [hv] at h
        cases h
    | error e =>
      rw [hl] at h
      cases e with
      | manifestError message => trivial
      | _ => cases h
  · intro h
    obtain ⟨line, hline⟩ := listPackage_line h
    rw [hline]

/-- The command prints a line for every package exactly if all are handled. -/
theorem agentList_returns (agents : AgentsDir) (printed : List String) :
    (exec printing (agentList agents) printed).1 = .ok () ↔
      ∀ agentId ∈ discover agents, Handled (agents.package (packageDir agentId)) agentId := by
  unfold agentList
  split
  · rename_i hnil
    rw [hnil]
    exact iff_of_true rfl (List.forall_mem_nil _)
  · exact exec_forM_ok (fun agentId w => listPackage_returns w) _ printed

/-- **Malformed packages.** A package is loaded under its id or reported, and
the list goes on, exactly if what its files hold is handled; the list reaches
its end exactly if that is so of every package on disk. -/
theorem malformed_reported_iff (agents : AgentsDir) :
    (∀ agentId, Reported agents.toDisk agentId ↔ Handled (agents.package (packageDir agentId)) agentId) ∧
      ∀ printed, (exec printing (agentList agents) printed).1 = .ok () ↔
        ∀ agentId ∈ discover agents, Handled (agents.package (packageDir agentId)) agentId := by
  refine ⟨fun agentId => ⟨fun h => ?_, fun h => ?_⟩, agentList_returns agents⟩
  · obtain ⟨line, hline⟩ := h.list [] []
    have hall := (exec_forM_ok (fun agentId w => listPackage_returns w) [agentId] []).mp (congrArg Prod.fst hline)
    exact hall agentId List.mem_cons_self
  · obtain ⟨line, hline⟩ := listPackage_line h
    obtain ⟨manifest, sop, hl, hid, -⟩ | ⟨message, hl⟩ := loaded_or_reported h
    · refine ⟨by rw [hl]; exact hid, ⟨problems manifest sop, ?_⟩, fun ids printed => ⟨line, exec_forM_cons (hline printed) ids⟩⟩
      rw [ControlPlane.validate, hl]
    · refine ⟨by rw [hl]; trivial, ⟨[message], ?_⟩, fun ids printed => ⟨line, exec_forM_cons (hline printed) ids⟩⟩
      rw [ControlPlane.validate, hl]

end

/-! ## A manifest that is a list -/

def listManifest : String := "- id: billing-audit\n- name: Billing Audit\n"

@[reducible] def listYaml : Yaml := yamlOf [(listManifest,
    .list [.dict [(.str "id", .str "billing-audit")], .dict [(.str "name", .str "Billing Audit")]]),
  (triageManifest "1",
    .dict [(.str "id", .str "incident-triage"), (.str "name", .str "Incident Triage"), (.str "tier", .str "1")])]

/-- A disk with that package, and one that is well formed. -/
def listAgents : AgentsDir where
  agentsDir := "agents"
  package directory :=
    if directory = "billing_audit" then ⟨some (.text listManifest), some (.text "Audit it.")⟩
    else (triagePlace "1").disk.package directory
  directories := some ["incident_triage", "billing_audit", "_template"]

/-- The package with a list is not reported: the TypeError leaves the loader and the
validation, and the list ends before the other package. -/
theorem listManifest_unreported :
    letI := digits
    letI := listYaml
    ¬ Reported listAgents.toDisk "billing-audit" ∧ validate listAgents.toDisk "billing-audit" = .error .typeError ∧
      discover listAgents = ["billing-audit", "incident-triage"] ∧
      validate listAgents.toDisk "incident-triage" = .ok [] ∧
      exec printing (agentList listAgents) [] = (.error (.load .typeError), []) := by
  let _ := digits
  let _ := listYaml
  have hv : validate listAgents.toDisk "billing-audit" = .error .typeError := by decide +kernel
  refine ⟨fun h => ?_, hv, by decide +kernel, by decide +kernel, by decide +kernel⟩
  obtain ⟨problems, hp⟩ := h.validate
  cases hv.symm.trans hp

end ControlPlane
