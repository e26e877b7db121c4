import ControlPlane.Lib.FileTree
import ControlPlane.Registry.Scaffold
import ControlPlane.Cli.AgentList

/-!
# Scaffolded agents

`agent init` of `cli/main.py` (`agentInit`), which copies the template's
directory and fills in its manifest, and the packages that are then on disk
(`agentsOn`).

`scaffolded_iff`: the new agent is found by `discover` and loaded under its
id (`Reloads`) exactly if its id has no underscore and no slash, is a plain
scalar that YAML reads as a string, and its name line is read as a string too.
`init_underscore` is an id the command takes and the loader does not.
-/

namespace ControlPlane

open FileTree

/-! ## The command -/

def templateName : Name := ⟨templateId, by decide⟩

def manifestName : Name := ⟨"manifest.yaml", by decide +kernel⟩

def sopName : Name := ⟨"procedure.sop.md", by decide +kernel⟩

def readmeName : Name := ⟨"README.md", by decide +kernel⟩

inductive InitError
  /-- `_fail(message)`. -/
  | failed (message : String)
  | osError
  | unicodeDecodeError

def orOSError {α : Type} : Option α → Except InitError α
  | some a => .ok a
  | none => .error .osError

def decoded : Content → Except InitError String
  | .text s => .ok s
  | .undecodable => .error .unicodeDecodeError

section

variable [Casing]

def readme (agentId : String) : String :=
  "# " ++ displayName agentId ++ "\n\nAgent package for `" ++ agentId ++ "`. The two files beside this one are the " ++
    "whole agent — there is no code to deploy.\n\n" ++
    "- `manifest.yaml` — tier, model, tools, parameters, approval policy\n" ++
    "- `procedure.sop.md` — the system prompt, substituted per job\n\n" ++
    "Say here what this agent decides and what it must never do.\n\n" ++
    "Authoring guide: [CONTRIBUTING.md](../../CONTRIBUTING.md)\n"

/-- What is then on disk, and what is printed. -/
def agentInit (agents : Place) (tree : Files Content) (agentId : String) : Except InitError (Files Content × List String) :=
  let destination := join agents (packageDir agentId)
  let template := agents ++ [templateName]
  if tree.pathExists destination then .error (.failed (destination.str ++ " already exists"))
  else if ¬ tree.isDir template.path then .error (.failed ("template not found at " ++ template.path.str))
  else do
    let copied ← orOSError (tree.copytree template destination)
    let manifestPath := destination ++ [.into manifestName]
    let text ← orOSError (copied.lookup manifestPath) >>= decoded
    let filled ← orOSError (copied.write manifestPath (.text (scaffold agentId text)))
    let done ← orOSError (filled.write (destination ++ [.into readmeName]) (.text (written (readme agentId))))
    return (done, ["created " ++ destination.str,
      "  edit manifest.yaml and procedure.sop.md, then: dos agent validate " ++ agentId])

end

/-- The agents' directory of a file tree. -/
def agentsOn (agents : Place) (tree : Files Content) : AgentsDir where
  agentsDir := agents.path.str
  package directory :=
    ⟨tree.lookup (join agents directory ++ [.into manifestName]), tree.lookup (join agents directory ++ [.into sopName])⟩
  directories := if tree.isDir agents.path then some (tree.names agents) else none

/-- The template that is shipped. -/
structure Shipped (agents : Place) (tree : Files Content) : Prop where
  manifest : tree.lookup (agents ++ [templateName, manifestName]).path = some (.text templateManifest)
  sop : ∃ s, tree.lookup (agents ++ [templateName, sopName]).path = some (.text s)

/-! ## What it leaves -/

theorem bind_ok {ε α β : Type} {x : Except ε α} {f : α → Except ε β} {b : β} :
    x >>= f = .ok b ↔ ∃ a, x = .ok a ∧ f a = .ok b := by
  cases x with
  | error e => exact iff_of_false (fun h => by cases h) fun ⟨_, h, _⟩ => by cases h
  | ok a =>
    simp only [Except.ok.injEq, exists_eq_left']
    exact Iff.rfl

theorem orOSError_ok {α : Type} {o : Option α} {a : α} : orOSError o = .ok a ↔ o = some a := by
  cases o <;> simp [orOSError]

theorem decoded_ok {content : Content} {s : String} (h : decoded content = .ok s) : content = .text s := by
  cases content <;> cases h
  rfl

theorem slash_notMem_packageDir {agentId : String} (h : '/' ∉ agentId.toList) : '/' ∉ (packageDir agentId).toList := by
  rw [packageDir, String.toList_map, List.mem_map]
  rintro ⟨c, hc, heq⟩
  split at heq
  · cases heq
  · exact h (heq ▸ hc)

section

variable [Casing] {agents : Place} {tree tree' : Files Content} {agentId : String} {printed : List String}

/-- All that the command does, where it does not fail. -/
theorem agentInit_ok (h : agentInit agents tree agentId = .ok (tree', printed)) :
    ¬ tree.pathExists (join agents (packageDir agentId)) ∧ tree.isDir (agents ++ [templateName]).path ∧
      ∃ copied text filled, tree.copytree (agents ++ [templateName]) (join agents (packageDir agentId)) = some copied ∧
        copied.lookup (join agents (packageDir agentId) ++ [.into manifestName]) = some (.text text) ∧
        copied.write (join agents (packageDir agentId) ++ [.into manifestName]) (.text (scaffold agentId text)) =
          some filled ∧
        filled.write (join agents (packageDir agentId) ++ [.into readmeName]) (.text (written (readme agentId))) =
          some tree' := by
  unfold agentInit at h
  dsimp only at h
  split at h
  · cases h
  rename_i hexists
  split at h
  · cases h
  rename_i hdir
  refine ⟨hexists, not_not.mp hdir, ?_⟩
  obtain ⟨copied, hcopied, h⟩ := bind_ok.mp h
  obtain ⟨text, htext, h⟩ := bind_ok.mp h
  obtain ⟨content, hcontent, hdecoded⟩ := bind_ok.mp htext
  obtain ⟨filled, hfilled, h⟩ := bind_ok.mp h
  obtain ⟨done, hdone, h⟩ := bind_ok.mp h
  cases h
  exact ⟨copied, text, filled, orOSError_ok.mp hcopied, decoded_ok hdecoded ▸ orOSError_ok.mp hcontent,
    orOSError_ok.mp hfilled, orOSError_ok.mp hdone⟩

/-- Of an id without a slash: the package's directory is one of the agents',
and no template, with the manifest filled in and the template's SOP. -/
theorem agentInit_leaves (h : agentInit agents tree agentId = .ok (tree', printed)) (hshipped : Shipped agents tree)
    (hslash : '/' ∉ agentId.toList) :
    packageDir agentId ≠ templateId ∧ agents ∈ tree'.dirs ∧ packageDir agentId ∈ tree'.names agents ∧
      ∃ sop, (agentsOn agents tree').package (packageDir agentId) =
        ⟨some (.text (scaffold agentId templateManifest)), some (.text sop)⟩ := by
  obtain ⟨hexists, hdir, copied, text, filled, hcopied, htext, hfilled, hdone⟩ := agentInit_ok h
  have htemplate : agents ++ [templateName] ∈ tree.dirs := Files.isDir_path.mp hdir
  have hagents : agents ∈ tree.dirs := tree.closed.prefix_mem htemplate (List.prefix_append agents _)
  have hname : IsName (packageDir agentId) := by
    by_contra hname
    refine hexists ?_
    rw [Files.pathExists, Files.isDir_join hagents (slash_notMem_packageDir hslash) hname, Bool.true_or]
  have hne : packageDir agentId ≠ templateId := by
    intro heq
    refine hexists ?_
    rw [Files.pathExists, join_name hname, show (⟨packageDir agentId, hname⟩ : Name) = templateName from Subtype.ext heq,
      hdir, Bool.true_or]
  rw [join_name hname] at hcopied
  simp only [join_name hname, path_child] at htext hfilled hdone
  have hdst := Files.copytree_dirs hcopied
  have hdirs : tree'.dirs = copied.dirs := (Files.write_dirs hdone).trans (Files.write_dirs hfilled)
  obtain ⟨sop, hsop⟩ := hshipped.sop
  have hm := Files.file_of_lookup hshipped.manifest
  have hsop := Files.file_of_lookup hsop
  rw [List.append_cons] at hm hsop
  have htext' : text = templateManifest := by
    rw [Files.lookup_copytree hcopied hm.1, hm.2] at htext
    exact (Content.text.inj (Option.some.inj htext)).symm
  have hplaces {name other : Name} (hn : name ≠ other) :
      (Place.path (agents ++ [⟨packageDir agentId, hname⟩] ++ [name])).place ≠
        (Place.path (agents ++ [⟨packageDir agentId, hname⟩] ++ [other])).place := by
    rw [place_path, place_path]
    exact fun heq => hn (List.singleton_inj.mp (List.append_cancel_left heq))
  refine ⟨hne, ?_, Files.mem_names.mpr ⟨hname, hdirs ▸ hdst.1⟩, sop, ?_⟩
  · exact tree'.closed.prefix_mem (hdirs ▸ hdst.1) (List.prefix_append agents _)
  · simp only [agentsOn, join_name hname, path_child, PackageFiles.mk.injEq]
    constructor
    · rw [Files.lookup_write_ne hdone (hplaces (by decide +kernel)), Files.lookup_write hfilled, htext']
    · rw [Files.lookup_write_ne hdone (hplaces (by decide +kernel)),
        Files.lookup_write_ne hfilled (hplaces (by decide +kernel)), Files.lookup_copytree hcopied hsop.1, hsop.2]

end

/-! ## Finding it -/

/-- `name.replace("_", "-")`. -/
def dashed (name : String) : String := name.map fun c => if c = '_' then '-' else c

theorem mem_discover {agents : Place} {tree : Files Content} {d : String} :
    d ∈ discover (agentsOn agents tree) ↔ agents ∈ tree.dirs ∧ ∃ name ∈ tree.names agents,
      (name ≠ templateId ∧ ((agentsOn agents tree).package name).manifest.isSome) ∧ dashed name = d := by
  by_cases hdir : tree.isDir agents.path
  · have hagents := Files.isDir_path.mp hdir
    simp only [discover, agentsOn, if_pos hdir, List.mem_insertionSort, List.mem_map, List.mem_filter, decide_eq_true_eq,
      and_assoc, hagents, true_and]
    exact Iff.rfl
  · have hagents : agents ∉ tree.dirs := fun h => hdir (Files.isDir_path.mpr h)
    simp [discover, agentsOn, hdir, hagents]

theorem dashed_clean {name : String} (h : IsName name) : '_' ∉ (dashed name).toList ∧ '/' ∉ (dashed name).toList := by
  simp only [dashed, String.toList_map, List.mem_map]
  refine ⟨fun ⟨c, _, heq⟩ => ?_, fun ⟨c, hc, heq⟩ => ?_⟩
  · split at heq
    · cases heq
    · contradiction
  · split at heq
    · cases heq
    · exact h.2.2.2 (heq ▸ hc)

theorem dashed_packageDir {agentId : String} (h : '_' ∉ agentId.toList) : dashed (packageDir agentId) = agentId := by
  rw [← String.toList_inj, dashed, packageDir, String.toList_map, String.toList_map, List.map_map]
  refine (List.map_congr_left fun c hc => ?_).trans (List.map_id _)
  have hne : c ≠ '_' := fun heq => h (heq ▸ hc)
  by_cases hdash : c = '-' <;> simp [hdash, hne]

/-! ## Loading it -/

section

variable [Pydantic] [Yaml]

/-- What the field takes of it, as a string. -/
def asText (field : String) (raw : Document) : Option String := (raw.value? <|> Yaml.lax field raw) >>= asStr

/-- The loader takes the id. -/
def LoadsAs (disk : Disk) (agentId : String) : Prop :=
  ∃ manifest sop, loadManifest disk agentId = .ok (manifest, sop) ∧ manifest.id = agentId

omit [Pydantic] in
theorem loadYaml_ok {manifestPath text : String} {doc : Document} :
    loadYaml manifestPath text = .ok doc ↔ ∃ raw, Yaml.safeLoad text = .ok raw ∧ raw.orEmpty = doc := by
  unfold loadYaml
  cases Yaml.safeLoad text with
  | ok raw => simp
  | error exc => cases exc <;> simp

theorem buildManifest_ok {manifestPath : String} {raw : Document} {manifest : Manifest} :
    buildManifest manifestPath raw = .ok manifest ↔ raw.keywords >>= Manifest.ofDocuments = some manifest := by
  unfold buildManifest
  cases raw.keywords with
  | none => simp
  | some kw => cases hm : Manifest.ofDocuments kw <;> simp [hm]

theorem loadsAs_iff {disk : Disk} {agentId text sop : String}
    (hp : disk.package (packageDir agentId) = ⟨some (.text text), some (.text sop)⟩) :
    LoadsAs disk agentId ↔ ∃ raw, Yaml.safeLoad text = .ok raw ∧ ∃ manifest, Describes raw agentId manifest := by
  unfold LoadsAs loadManifest Describes
  simp only [hp, bind_ok, found, Content.readText, loadYaml_ok, buildManifest_ok, Except.ok.injEq, exists_eq_left']
  constructor
  · rintro ⟨manifest, sop', ⟨doc, ⟨raw, hraw, rfl⟩, built, hbuilt, h⟩, hid⟩
    split at h
    · cases h
    · cases h
      exact ⟨raw, hraw, manifest, hbuilt, hid⟩
  · rintro ⟨raw, hraw, manifest, hbuilt, hid⟩
    refine ⟨manifest, sop, ⟨raw.orEmpty, ⟨raw, hraw, rfl⟩, manifest, hbuilt, ?_⟩, hid⟩
    rw [if_neg (not_not.mpr hid)]
    rfl

/-! ## What the manifest says -/

omit [Pydantic] [Yaml] in
theorem lookup_mapM {α β : Type} {g : String × α → Option β} {items : List (String × α)} {kw : List (String × β)}
    (h : (items.mapM fun item => (g item).map fun v => (item.1, v)) = some kw) (name : String) :
    kw.lookup name = (items.lookup name).bind fun x => g (name, x) := by
  induction items generalizing kw with
  | nil =>
    cases h
    rfl
  | cons item items ih =>
    rw [List.mapM_cons] at h
    obtain ⟨kv, hkv, h⟩ := Option.bind_eq_some_iff.mp h
    obtain ⟨rest, hrest, h⟩ := Option.bind_eq_some_iff.mp h
    cases h
    obtain ⟨v, hv, rfl⟩ := Option.map_eq_some_iff.mp hkv
    obtain ⟨key, x⟩ := item
    by_cases hkey : name = key
    · rw [hkey, List.lookup_cons_self, List.lookup_cons_self]
      exact hv.symm
    · have hb : (name == key) = false := beq_eq_false_iff_ne.mpr hkey
      rw [List.lookup_cons, List.lookup_cons, hb]
      exact ih hrest

omit [Yaml] in
theorem ofKwargs_id {values : Attrs} {manifest : Manifest} (h : (Manifest.ofKwargs values).toOption = some manifest) :
    values.lookup "id" >>= asStr = some manifest.id := by
  unfold Manifest.ofKwargs construct at h
  split at h
  · split at h
    · rename_i built hbuilt
      cases h
      obtain ⟨id, hid, hbuilt⟩ := Option.bind_eq_some_iff.mp hbuilt
      iterate 11 obtain ⟨_, _, hbuilt⟩ := Option.bind_eq_some_iff.mp hbuilt
      cases hbuilt
      exact hid
    · cases h
  · cases h

/-- The id of a manifest is what its field takes. -/
theorem Describes.id_eq {raw : Document} {agentId : String} {manifest : Manifest} (h : Describes raw agentId manifest) :
    ∃ kw a, raw.orEmpty.keywords = some kw ∧ kw.lookup "id" = some a ∧ asText "id" a = some agentId := by
  obtain ⟨hbuilt, rfl⟩ := h
  obtain ⟨kw, hkw, hbuilt⟩ := Option.bind_eq_some_iff.mp hbuilt
  obtain ⟨values, hvalues, hbuilt⟩ := Option.bind_eq_some_iff.mp hbuilt
  have hlookup := lookup_mapM (g := fun item => item.2.value? <|> Yaml.lax item.1 item.2) hvalues "id"
  rw [lookup_filter_key (fun name => name ∈ Manifest.fields) (by decide)] at hlookup
  obtain ⟨v, hv, hstr⟩ := Option.bind_eq_some_iff.mp (ofKwargs_id hbuilt)
  rw [hv] at hlookup
  obtain ⟨a, ha, hav⟩ := Option.bind_eq_some_iff.mp hlookup.symm
  exact ⟨kw, a, hkw, ha, Option.bind_eq_some_iff.mpr ⟨v, hav, hstr⟩⟩

/-- What pydantic has of the rest of the template. -/
def templateValues : Attrs :=
  [("version", .int 1), ("tier", .str "1"), ("model", .str "bedrock-claude"), ("tools", .list []), ("mcp_servers", .list []),
    ("parameters", .dict [("escalation_threshold_usd", .str "200")])]

omit [Yaml] in
theorem ofKwargs_template (id name : Value) :
    (Manifest.ofKwargs (("id", id) :: ("name", name) :: templateValues)).toOption =
      (asStr id).bind fun id => (asStr name).map fun name =>
        { id, name, parameters := [("escalation_threshold_usd", "200")] } := by
  cases id with
  | str id => cases name <;> rfl
  | _ => rfl

/-- The template's other fields are what a manifest has. -/
theorem describes_template {a b : Document} {agentId : String} :
    (∃ manifest, Describes (.dict ((.str "id", a) :: (.str "name", b) ::
        templateRest.map fun item => (.str item.1, item.2))) agentId manifest) ↔
      asText "id" a = some agentId ∧ (asText "name" b).isSome := by
  have hkw : (Document.dict ((.str "id", a) :: (.str "name", b) ::
      templateRest.map fun item => (.str item.1, item.2))).orEmpty.keywords =
      some (("id", a) :: ("name", b) :: templateRest) := rfl
  have hdocs : Manifest.ofDocuments (("id", a) :: ("name", b) :: templateRest) =
      (asText "id" a).bind fun id => (asText "name" b).map fun name =>
        { id, name, parameters := [("escalation_threshold_usd", "200")] } := by
    have hrest : ((templateRest.filter fun item => item.1 ∈ Manifest.fields).mapM fun item =>
        (item.2.value? <|> Yaml.lax item.1 item.2).map fun v => (item.1, v)) = some templateValues := rfl
    unfold Manifest.ofDocuments asText
    rw [List.filter_cons_of_pos (by rfl), List.filter_cons_of_pos (by rfl), List.mapM_cons, List.mapM_cons, hrest]
    dsimp only
    cases a.value? <|> Yaml.lax "id" a with
    | none => rfl
    | some v =>
      cases b.value? <|> Yaml.lax "name" b with
      | none => cases hv : asStr v <;> simp [hv]
      | some w => exact ofKwargs_template v w
  unfold Describes
  rw [hkw, Option.bind_eq_bind, Option.bind_some, hdocs]
  cases asText "id" a with
  | none => simp
  | some id => cases asText "name" b <;> simp

/-! ## The rules of YAML -/

/-- What YAML has for a plain scalar: its text, or what is written so. -/
inductive Resolved (s : String) : Document → Prop
  | str : Resolved s (.str s)
  | null : Resolved s .null
  | bool (b : Bool) : Resolved s (.bool b)
  | int (n : ℤ) : Resolved s (.int n)
  | float (x : PyFloat) : Resolved s (.float x)
  | timestamp (isoformat : String) : Resolved s (.timestamp isoformat)

/-- YAML's rules, for the template: what it has for a plain scalar on the id
line (`scalar`), and for a text on the name line (`nameLine`), where it has
anything. -/
structure PlainRules [Casing] (scalar nameLine : String → Option Document) : Prop where
  template : ∀ agentId name raw, PlainScalar agentId.toList → (∀ c ∈ name.toList, isLineChar c) →
    (Yaml.safeLoad (templateWith ("id: " ++ agentId) ("name: " ++ name)) = .ok raw ↔
      ∃ a ∈ scalar agentId, ∃ b ∈ nameLine name,
        raw = .dict ((.str "id", a) :: (.str "name", b) :: templateRest.map fun item => (.str item.1, item.2)))
  resolved : ∀ s raw, PlainScalar s.toList → scalar s = some raw → Resolved s raw
  /-- A string field takes no date. -/
  timestamp : ∀ isoformat, Yaml.lax "id" (.timestamp isoformat) = none
  /-- What is no plain scalar is not what its own text is read as. -/
  other : ∀ agentId raw kw a, ¬ PlainScalar agentId.toList →
    Yaml.safeLoad (scaffold agentId templateManifest) = .ok raw → raw.orEmpty.keywords = some kw →
    kw.lookup "id" = some a → asText "id" a ≠ some agentId

section

variable [Casing] {scalar nameLine : String → Option Document} {agentId : String}

/-- The id line says the id, and the name line a string. -/
structure ReadAsItself (scalar nameLine : String → Option Document) (agentId : String) : Prop where
  plain : PlainScalar agentId.toList
  id : scalar agentId = some (.str agentId)
  name : ∃ raw ∈ nameLine (displayName agentId), (asText "name" raw).isSome

omit [Pydantic] in
theorem PlainRules.asText_id (hr : PlainRules scalar nameLine) {s : String} {raw : Document} (h : Resolved s raw) :
    asText "id" raw = some s ↔ raw = .str s := by
  cases h with
  | str => exact iff_of_true rfl rfl
  | timestamp isoformat => exact iff_of_false (by simp [asText, Document.value?, hr.timestamp]) (by simp)
  | _ => exact iff_of_false (by simp [asText, Document.value?, asStr]) (by simp)

theorem PlainRules.describes_iff (hr : PlainRules scalar nameLine) :
    (∃ raw, Yaml.safeLoad (scaffold agentId templateManifest) = .ok raw ∧ ∃ manifest, Describes raw agentId manifest) ↔
      ReadAsItself scalar nameLine agentId := by
  constructor
  · rintro ⟨raw, hraw, hdescribes⟩
    have hplain : PlainScalar agentId.toList := by
      by_contra hplain
      obtain ⟨manifest, hmanifest⟩ := hdescribes
      obtain ⟨kw, a, hkw, ha, htext⟩ := hmanifest.id_eq
      exact hr.other agentId raw kw a hplain hraw hkw ha htext
    rw [scaffold_plain hplain] at hraw
    obtain ⟨a, ha, b, hb, rfl⟩ := (hr.template _ _ _ hplain (displayName_line hplain.line)).mp hraw
    obtain ⟨hid, hname⟩ := describes_template.mp hdescribes
    have ha' := (hr.asText_id (hr.resolved _ _ hplain ha)).mp hid
    exact ⟨hplain, ha' ▸ ha, b, hb, hname⟩
  · rintro ⟨hplain, hid, b, hb, hname⟩
    rw [scaffold_plain hplain]
    refine ⟨_, (hr.template _ _ _ hplain (displayName_line hplain.line)).mpr ⟨_, hid, b, hb, rfl⟩, ?_⟩
    exact describes_template.mpr ⟨rfl, hname⟩

/-! ## Finding and loading it -/

/-- The new agent is found, and it and whatever id is found for its package
are loaded. -/
structure Reloads (agents : AgentsDir) (agentId : String) : Prop where
  found : agentId ∈ discover agents
  loaded : LoadsAs agents.toDisk agentId
  listed : ∀ d ∈ discover agents, packageDir d = packageDir agentId → LoadsAs agents.toDisk d

variable {agents : Place} {tree tree' : Files Content} {printed : List String}

/-- **Scaffolding.** A new agent is found and loaded again exactly if its id has
no underscore and no slash, and is read back by the rules of YAML. -/
theorem scaffolded_iff (hr : PlainRules scalar nameLine) (hshipped : Shipped agents tree)
    (h : agentInit agents tree agentId = .ok (tree', printed)) :
    Reloads (agentsOn agents tree') agentId ↔
      '_' ∉ agentId.toList ∧ '/' ∉ agentId.toList ∧ ReadAsItself scalar nameLine agentId := by
  rw [← hr.describes_iff]
  constructor
  · intro hreloads
    obtain ⟨-, name, hname, -, hd⟩ := mem_discover.mp hreloads.found
    obtain ⟨hisname, -⟩ := Files.mem_names.mp hname
    obtain ⟨hunderscore, hslash⟩ := dashed_clean hisname
    rw [hd] at hunderscore hslash
    obtain ⟨-, -, -, sop, hpackage⟩ := agentInit_leaves h hshipped hslash
    exact ⟨hunderscore, hslash, (loadsAs_iff hpackage).mp hreloads.loaded⟩
  · rintro ⟨hunderscore, hslash, hdescribes⟩
    obtain ⟨hne, hagents, hname, sop, hpackage⟩ := agentInit_leaves h hshipped hslash
    have hloads : LoadsAs (agentsOn agents tree').toDisk agentId := (loadsAs_iff hpackage).mpr hdescribes
    have hmanifest : ((agentsOn agents tree').package (packageDir agentId)).manifest.isSome := by
      rw [hpackage]
      rfl
    refine ⟨?_, hloads, fun d hd heq => ?_⟩
    · exact mem_discover.mpr ⟨hagents, _, hname, ⟨hne, hmanifest⟩, dashed_packageDir hunderscore⟩
    · obtain ⟨-, name, hname, -, rfl⟩ := mem_discover.mp hd
      obtain ⟨hisname, -⟩ := Files.mem_names.mp hname
      rw [← dashed_packageDir (dashed_clean hisname).1, heq, dashed_packageDir hunderscore]
      exact hloads

end

end

/-! ## An id with an underscore -/

theorem isLineChar_getD {table : List (Char × Char)} (ht : ∀ p ∈ table, isLineChar p.2) (c : Char) (hc : isLineChar c) :
    ∀ d ∈ [(table.lookup c).getD c], isLineChar d := by
  intro d hd
  rw [List.mem_singleton.mp hd]
  cases hl : table.lookup c with
  | none => exact hc
  | some d =>
    obtain ⟨xs, ys, hmem, -⟩ := List.lookup_eq_some_iff.mp hl
    exact ht (c, d) (hmem ▸ List.mem_append_right xs List.mem_cons_self)

/-- The letters of ASCII, and its marks that the case of a word goes over. -/
@[reducible] def ascii : Casing :=
  let lower := "abcdefghijklmnopqrstuvwxyz".toList
  let upper := "ABCDEFGHIJKLMNOPQRSTUVWXYZ".toList
  { isCased := fun c => c ∈ lower ∨ c ∈ upper
    isCaseIgnorable := fun c => c ∈ ['.', ':', '^']
    titlecase := fun c => [((lower.zip upper).lookup c).getD c]
    lowercase := fun c => [((upper.zip lower).lookup c).getD c]
    titlecase_line := isLineChar_getD (by decide)
    lowercase_line := isLineChar_getD (by decide) }

open Replace in
/-- What is between `head` and `mid`, and what is then on the line. -/
def linesIn (head mid text : List Char) : Option (List Char × List Char) :=
  (cut head text).bind fun parts => (cut mid parts.2).map fun parts => (parts.1, parts.2.takeWhile (· ≠ '\n'))

/-- The id line and the name line of a text from the template. -/
def templateLines (text : String) : Option (String × String) :=
  (linesIn (templateHead ++ "id: ").toList (templateMid ++ "name: ").toList text.toList).map fun lines =>
    (String.ofList lines.1, String.ofList lines.2)

/-- A YAML that reads what is from the template, where its lines are strings. -/
@[reducible] def lineYaml : Yaml where
  safeLoad text := match templateLines text with
    | some (agentId, name) =>
      if PlainScalar agentId.toList ∧ name.toList.all isLineChar then
        .ok (.dict ((.str "id", .str agentId) :: (.str "name", .str name) ::
          templateRest.map fun item => (.str item.1, item.2)))
      else .error (.yamlError "while scanning a simple key")
    | none => .error (.yamlError "while scanning a simple key")
  lax _ _ := none
  validationError _ := ""

open Replace in
/-- The first comment after a plain scalar is the one of its line. -/
theorem clear_comment {s rest after : List Char} (h : PlainScalar s) :
    Clear (' ' :: '#' :: rest) s (' ' :: '#' :: after) := by
  intro t ht hne hcomment
  rcases t with _ | ⟨c, _ | ⟨d, t⟩⟩
  · exact hne rfl
  · simp at hcomment
  · obtain ⟨hc, hcomment⟩ := List.cons_prefix_cons.mp hcomment
    obtain ⟨hd, -⟩ := List.cons_prefix_cons.mp hcomment
    rw [← hc, ← hd] at ht
    exact h.noComment ((List.prefix_append [' ', '#'] t).isInfix.trans ht.isInfix)

theorem takeWhile_line {name rest : List Char} (h : ∀ c ∈ name, isLineChar c) :
    (name ++ '\n' :: rest).takeWhile (· ≠ '\n') = name := by
  rw [List.takeWhile_append_of_pos fun c hc => ?_, List.takeWhile_cons_of_neg (by decide), List.append_nil]
  rw [decide_eq_true_iff]
  rintro rfl
  cases h '\n' hc

open Replace in
theorem linesIn_eq {head comment agentId name rest : List Char} (hhead : head ≠ []) (hplain : PlainScalar agentId)
    (hname : ∀ c ∈ name, isLineChar c) :
    linesIn head (' ' :: '#' :: comment) (head ++ (agentId ++ ((' ' :: '#' :: comment) ++ (name ++ '\n' :: rest)))) =
      some (agentId, name) := by
  have hstart (text : List Char) : cut head (head ++ text) = some ([], text) :=
    cut_append (fun s hs hne => absurd (List.suffix_nil.mp hs) hne) hhead
  have hcomment (text : List Char) : cut (' ' :: '#' :: comment) (agentId ++ ((' ' :: '#' :: comment) ++ text)) =
      some (agentId, text) := cut_append (clear_comment hplain) (List.cons_ne_nil _ _)
  rw [linesIn, hstart, Option.bind_some, hcomment, Option.map_some, takeWhile_line hname]

theorem templateLines_templateWith {agentId name : String} (hplain : PlainScalar agentId.toList)
    (hname : ∀ c ∈ name.toList, isLineChar c) :
    templateLines (templateWith ("id: " ++ agentId) ("name: " ++ name)) = some (agentId, name) := by
  obtain ⟨comment, hcomment⟩ : ∃ comment, (templateMid ++ "name: ").toList = ' ' :: '#' :: comment := by
    rw [String.toList_append, show templateMid = String.ofList _ from rfl, String.toList_ofList]
    exact ⟨_, rfl⟩
  obtain ⟨tail, htail⟩ := toList_templateTail
  have hhead : (templateHead ++ "id: ").toList ≠ [] := by
    rw [String.toList_append, ne_eq, List.append_eq_nil_iff]
    exact fun h => absurd h.2 (by decide)
  have htext : (templateWith ("id: " ++ agentId) ("name: " ++ name)).toList = (templateHead ++ "id: ").toList ++
      (agentId.toList ++ ((templateMid ++ "name: ").toList ++ (name.toList ++ templateTail.toList))) := by
    simp only [toList_templateWith, String.toList_append, List.append_assoc]
  rw [templateLines, htext, hcomment, htail, linesIn_eq hhead hplain hname]
  simp only [Option.map_some, String.ofList_toList]

def agentsPlace : Place := [⟨"repo", by decide +kernel⟩, ⟨"agents", by decide +kernel⟩]

def templatePlace : Place := agentsPlace ++ [templateName]

/-- A file tree with the template alone. -/
def templateTree : Files Content where
  dirs := [[], agentsPlace.dropLast, agentsPlace, templatePlace]
  file := fun p =>
    if p = templatePlace ++ [manifestName] then some (.text templateManifest)
    else if p = templatePlace ++ [sopName] then some (.text "You triage invoices.")
    else none
  refuses _ := false
  closed := ⟨List.mem_cons_self, by decide +kernel⟩

theorem shipped_templateTree : Shipped agentsPlace templateTree := by
  have hdir : templatePlace ∈ templateTree.dirs := by decide +kernel
  have hmanifest : templatePlace ++ [manifestName] ∉ templateTree.dirs := by decide +kernel
  have hsop : templatePlace ++ [sopName] ∉ templateTree.dirs := by decide +kernel
  have hne : templatePlace ++ [sopName] ≠ templatePlace ++ [manifestName] := by decide +kernel
  refine ⟨?_, "You triage invoices.", ?_⟩
  · rw [List.append_cons, ← templatePlace, Files.lookup_child hdir hmanifest]
    simp only [templateTree, if_true]
  · rw [List.append_cons, ← templatePlace, Files.lookup_child hdir hsop]
    simp only [templateTree, if_neg hne, if_true]

section

local instance : Casing := ascii

local instance : Yaml := lineYaml

theorem safeLoad_ok {text : String} {raw : Document} : Yaml.safeLoad text = .ok raw ↔ ∃ agentId name,
    templateLines text = some (agentId, name) ∧ PlainScalar agentId.toList ∧ (∀ c ∈ name.toList, isLineChar c) ∧
      raw = .dict ((.str "id", .str agentId) :: (.str "name", .str name) ::
        templateRest.map fun item => (.str item.1, item.2)) := by
  simp only [Yaml.safeLoad]
  cases templateLines text with
  | none => simp
  | some lines =>
    by_cases h : PlainScalar lines.1.toList ∧ lines.2.toList.all isLineChar
    · simp only [if_pos h]
      exact ⟨fun hr => ⟨lines.1, lines.2, rfl, h.1, List.all_eq_true.mp h.2, (Except.ok.inj hr).symm⟩, fun ⟨_, _, hl, _, _, hr⟩ => by
        cases hl
        rw [hr]⟩
    · simp only [if_neg h]
      exact iff_of_false (fun h => by cases h) fun ⟨_, _, hl, hplain, hname, _⟩ => by
        cases hl
        exact h ⟨hplain, List.all_eq_true.mpr hname⟩

theorem plainRules_line : PlainRules (fun s => some (.str s)) (fun s => some (.str s)) := by
  refine ⟨fun agentId name raw hplain hname => ?_, fun s raw _ hs => ?_, fun _ => rfl, ?_⟩
  · rw [safeLoad_ok, templateLines_templateWith hplain hname]
    constructor
    · rintro ⟨_, _, hlines, -, -, rfl⟩
      cases hlines
      exact ⟨_, rfl, _, rfl, rfl⟩
    · rintro ⟨_, ha, _, hb, rfl⟩
      cases ha
      cases hb
      exact ⟨agentId, name, rfl, hplain, hname, rfl⟩
  · cases hs
    exact .str
  · intro agentId raw kw a hplain hraw hkw ha htext
    obtain ⟨other, name, -, hother, -, rfl⟩ := safeLoad_ok.mp hraw
    cases hkw
    cases ha
    cases htext
    exact hplain hother

/-- The new agent's package, found under its id. -/
theorem scaffolded_iff_invoiceAudit :
    letI := digits
    ∃ tree' printed, agentInit agentsPlace templateTree "invoice-audit" = .ok (tree', printed) ∧
      Reloads (agentsOn agentsPlace tree') "invoice-audit" := by
  let _ := digits
  have hok : (agentInit agentsPlace templateTree "invoice-audit").isOk := by decide +kernel
  cases h : agentInit agentsPlace templateTree "invoice-audit" with
  | error e =>
    rw [h] at hok
    cases hok
  | ok r =>
    refine ⟨r.1, r.2, rfl, (scaffolded_iff plainRules_line shipped_templateTree h).mpr ?_⟩
    exact ⟨by decide, by decide, by decide, rfl, _, rfl, rfl⟩

/-- The command takes an id with an underscore, and `discover` has another for
its package, which the loader does not take. -/
theorem init_underscore :
    letI := digits
    ∃ tree' printed, agentInit agentsPlace templateTree "my_agent" = .ok (tree', printed) ∧
      discover (agentsOn agentsPlace tree') = ["my-agent"] ∧
      LoadsAs (agentsOn agentsPlace tree').toDisk "my_agent" ∧
      ¬ LoadsAs (agentsOn agentsPlace tree').toDisk "my-agent" ∧ ¬ Reloads (agentsOn agentsPlace tree') "my_agent" := by
  let _ := digits
  have hfound : (agentInit agentsPlace templateTree "my_agent").toOption.map (fun r => discover (agentsOn agentsPlace r.1)) =
      some ["my-agent"] := by decide +kernel
  cases h : agentInit agentsPlace templateTree "my_agent" with
  | error e =>
    rw [h] at hfound
    cases hfound
  | ok r =>
    rw [h] at hfound
    obtain ⟨-, -, -, sop, hpackage⟩ := agentInit_leaves h shipped_templateTree (by decide)
    have hdir : packageDir "my-agent" = packageDir "my_agent" := by decide +kernel
    have hfound : discover (agentsOn agentsPlace r.1) = ["my-agent"] := Option.some.inj hfound
    refine ⟨r.1, r.2, rfl, hfound, (loadsAs_iff hpackage).mpr ?_, fun hloads => ?_, fun hreloads => ?_⟩
    · exact plainRules_line.describes_iff.mpr ⟨by decide, rfl, _, rfl, rfl⟩
    · have hplain : PlainScalar "my_agent".toList := by decide
      obtain ⟨raw, hraw, hdescribes⟩ := (loadsAs_iff (hdir ▸ hpackage)).mp hloads
      rw [scaffold_plain hplain] at hraw
      obtain ⟨a, ha, b, -, rfl⟩ := (plainRules_line.template _ _ _ hplain (displayName_line hplain.line)).mp hraw
      cases ha
      exact absurd (describes_template.mp hdescribes).1 (by decide)
    · have hmem := hreloads.found
      rw [hfound] at hmem
      exact absurd hmem (by decide)

end

end ControlPlane
