import ControlPlane.Registry.Documents

/-!
# Agent packages on disk

`app/registry/manifest.py`: an agent's directory (`Disk`) is loaded into its
manifest and its SOP (`loadManifest`), and becomes the registry's row
(`toPackage`). What YAML's loader reads in a text, and what pydantic says of a
manifest it rejects, is left to the `Yaml` it runs with.

Each stage of the loading comes with what it takes for it to return, or to
raise a ManifestError (`Reports`); anything else that is raised leaves it as
it is.

The SOP's placeholders are here too: those it uses (`placeholders`), and the
SOP with what a job gives for them (`renderSop`).
-/

namespace ControlPlane

/-! ## Manifests -/

structure Manifest where
  id : String
  name : String
  version : ℤ := 1
  tier : String := "1"
  model : String := "bedrock-claude"
  tools : List String := []
  mcpServers : List String := []
  parameters : List (String × String) := []
  approvalPolicy : Option ApprovalPolicy := none
  guardrailArn : Option String := none
  outputModel : Option String := none
  runtimeArn : Option String := none

namespace Manifest

def required : List String := ["id", "name"]

def fields : List String :=
  ["id", "name", "version", "tier", "model", "tools", "mcp_servers", "parameters", "approval_policy", "guardrail_arn",
    "output_model", "runtime_arn"]

def ofKwargs [Pydantic] : Attrs → Except Raised Manifest :=
  construct required fun kw => do
    return {
      id := ← field kw "id" asStr
      name := ← field kw "name" asStr
      version := ← fieldD kw "version" 1 asInt
      tier := ← fieldD kw "tier" "1" asStr
      model := ← fieldD kw "model" "bedrock-claude" asStr
      tools := ← fieldD kw "tools" [] asStrList
      mcpServers := ← fieldD kw "mcp_servers" [] asStrList
      parameters := ← fieldD kw "parameters" [] asStrDict
      approvalPolicy := ← fieldD kw "approval_policy" none (asOption ApprovalPolicy.ofValue)
      guardrailArn := ← fieldD kw "guardrail_arn" none (asOption asStr)
      outputModel := ← fieldD kw "output_model" none (asOption asStr)
      runtimeArn := ← fieldD kw "runtime_arn" none (asOption asStr) }

/-- `Manifest(**kwargs)`, of what YAML has; `none` is a ValidationError. Other
keywords than the fields are ignored. -/
def ofDocuments [Pydantic] [Yaml] (kwargs : List (String × Document)) : Option Manifest := do
  let kw ← (kwargs.filter fun item => item.1 ∈ fields).mapM fun item =>
    (item.2.value? <|> Yaml.lax item.1 item.2).map fun v => (item.1, v)
  (ofKwargs kw).toOption

end Manifest

/-! ## Placeholders -/

/-- `c.isspace()`, and `\s`. -/
def isSpace (c : Char) : Bool :=
  let n := c.toNat
  (9 ≤ n ∧ n ≤ 13) ∨ (28 ≤ n ∧ n ≤ 32) ∨ n = 0x85 ∨ n = 0xA0 ∨ n = 0x1680 ∨ (0x2000 ≤ n ∧ n ≤ 0x200A) ∨
    n = 0x2028 ∨ n = 0x2029 ∨ n = 0x202F ∨ n = 0x205F ∨ n = 0x3000

/-- `[a-zA-Z_]`. -/
def isNameStart (c : Char) : Bool := c.isAlpha || c = '_'

/-- `[a-zA-Z0-9_]`. -/
def isNameChar (c : Char) : Bool := c.isAlphanum || c = '_'

/-- A match of `PLACEHOLDER` at the start of the text: its name, and what
follows it. The characters of its parts differ, so there is at most one. -/
def matchPlaceholder : List Char → Option (String × List Char)
  | '{' :: '{' :: cs =>
    let cs := cs.dropWhile isSpace
    match cs with
    | c :: _ =>
      if isNameStart c then
        match (cs.dropWhile isNameChar).dropWhile isSpace with
        | '}' :: '}' :: rest => some (String.ofList (cs.takeWhile isNameChar), rest)
        | _ => none
      else none
    | [] => none
  | _ => none

/-- A piece of an SOP. -/
inductive Piece
  | text (c : Char)
  /-- A placeholder, and its own text. -/
  | placeholder (name : String) (verbatim : List Char)

/-- The pieces of the first `n` characters of a text, or somewhat more. -/
def pieces : ℕ → List Char → List Piece
  | 0, _ => []
  | _ + 1, [] => []
  | n + 1, c :: cs =>
    match matchPlaceholder (c :: cs) with
    | some (name, rest) => .placeholder name ((c :: cs).take ((c :: cs).length - rest.length)) :: pieces n rest
    | none => .text c :: pieces n cs

def sopPieces (sop : String) : List Piece := pieces sop.toList.length sop.toList

/-- The names of the placeholders an SOP uses. -/
def placeholders (sop : String) : List String :=
  ((sopPieces sop).filterMap fun piece => match piece with
    | .placeholder name _ => some name
    | .text _ => none).dedup

/-- Substitutes the placeholders the context has; the others stay. -/
def renderSop (sop : String) (context : List (String × String)) : String :=
  String.ofList ((sopPieces sop).flatMap fun piece => match piece with
    | .text c => [c]
    | .placeholder name verbatim => ((context.lookup name).map String.toList).getD verbatim)

example : renderSop "Triage for {{ tenant_id }}, {{tier}}." [("tenant_id", "acme")] = "Triage for acme, {{tier}}." := by
  decide +kernel

/-! ## Loading -/

/-- What a file holds. -/
inductive Content
  | text (s : String)
  /-- Bytes that its encoding does not have. -/
  | undecodable

/-- The two files of a package, where they are there. -/
structure PackageFiles where
  manifest : Option Content
  sop : Option Content

/-- The agents' directory, and the packages in it, each under its own directory's
name. -/
structure Disk where
  agentsDir : String
  package : String → PackageFiles

/-- Why a package is not loaded. -/
inductive LoadError
  | manifestError (message : String)
  /-- `Manifest(**raw)`, of what is no dict with strings for keys. -/
  | typeError
  /-- `read_text()`. -/
  | unicodeDecodeError
  /-- `yaml.safe_load`, other than its YAMLError. -/
  | yamlRaised
  deriving DecidableEq

/-- `agent_id.replace("-", "_")`. -/
def packageDir (agentId : String) : String := agentId.map fun c => if c = '-' then '_' else c

/-- `is_file()`. -/
def found (path : String) : Option Content → Except LoadError Content
  | none => .error (.manifestError (path ++ " not found"))
  | some file => .ok file

def Content.readText : Content → Except LoadError String
  | text s => .ok s
  | undecodable => .error .unicodeDecodeError

section

variable [Pydantic] [Yaml]

omit [Pydantic] in
/-- `yaml.safe_load(text) or {}`, with its YAMLError translated. -/
def loadYaml (manifestPath text : String) : Except LoadError Document :=
  match Yaml.safeLoad text with
  | .ok raw => .ok raw.orEmpty
  | .error (.yamlError exc) => .error (.manifestError (manifestPath ++ " is not valid YAML: " ++ exc))
  | .error .other => .error .yamlRaised

/-- `Manifest(**raw)`, with its ValidationError translated. -/
def buildManifest (manifestPath : String) (raw : Document) : Except LoadError Manifest :=
  match raw.keywords with
  | none => .error .typeError
  | some kw =>
    match Manifest.ofDocuments kw with
    | none => .error (.manifestError (manifestPath ++ " is invalid:\n" ++ Yaml.validationError kw))
    | some manifest => .ok manifest

/-- The manifest and the raw SOP. -/
def loadManifest (disk : Disk) (agentId : String) : Except LoadError (Manifest × String) := do
  let directory := packageDir agentId
  let manifestPath := disk.agentsDir ++ "/" ++ directory ++ "/manifest.yaml"
  let sopPath := disk.agentsDir ++ "/" ++ directory ++ "/procedure.sop.md"
  let manifestFile ← found manifestPath (disk.package directory).manifest
  let sopFile ← found sopPath (disk.package directory).sop
  let text ← manifestFile.readText
  let raw ← loadYaml manifestPath text
  let manifest ← buildManifest manifestPath raw
  if manifest.id ≠ agentId then
    .error (.manifestError
      (manifestPath ++ ": id is " ++ pyRepr manifest.id ++ ", expected " ++ pyRepr agentId))
  else
    let sop ← sopFile.readText
    return (manifest, sop)

end

/-! ## What loading reports -/

/-- `Q` of what is returned, unless a ManifestError is raised; no other exception is. -/
def Reports {α : Type} (Q : α → Prop) : Except LoadError α → Prop
  | .ok a => Q a
  | .error (.manifestError _) => True
  | .error _ => False

theorem reports_bind {α β : Type} {Q : β → Prop} {r : Except LoadError α} {f : α → Except LoadError β} :
    Reports Q (r >>= f) ↔ Reports (fun a => Reports Q (f a)) r := by
  cases r with
  | ok a => exact Iff.rfl
  | error e => cases e <;> exact Iff.rfl

theorem reports_found {Q : Content → Prop} {path : String} {file : Option Content} :
    Reports Q (found path file) ↔ ∀ content ∈ file, Q content := by
  cases file <;> simp [found, Reports]

theorem reports_readText {Q : String → Prop} {content : Content} :
    Reports Q content.readText ↔ ∃ text, content = .text text ∧ Q text := by
  cases content <;> simp [Content.readText, Reports]

section

variable [Pydantic] [Yaml]

omit [Pydantic] in
theorem reports_loadYaml {Q : Document → Prop} {manifestPath text : String} :
    Reports Q (loadYaml manifestPath text) ↔
      Yaml.safeLoad text ≠ .error .other ∧ ∀ raw, Yaml.safeLoad text = .ok raw → Q raw.orEmpty := by
  unfold loadYaml
  cases Yaml.safeLoad text with
  | ok raw => simp [Reports]
  | error exc => cases exc <;> simp [Reports]

theorem reports_buildManifest {Q : Manifest → Prop} {manifestPath : String} {raw : Document} :
    Reports Q (buildManifest manifestPath raw) ↔
      raw.keywords.isSome ∧ ∀ manifest, raw.keywords >>= Manifest.ofDocuments = some manifest → Q manifest := by
  unfold buildManifest
  cases raw.keywords with
  | none => simp [Reports]
  | some kw => cases hm : Manifest.ofDocuments kw <;> simp [Reports, hm]

end

/-! ## The packages there are -/

/-- The agents' directory with the names of the directories in it, where it is
a directory itself. -/
structure AgentsDir extends Disk where
  directories : Option (List String)

def templateId : String := "_template"

/-- The ids of the packages on disk, other than the template. -/
def discover (agents : AgentsDir) : List String :=
  match agents.directories with
  | none => []
  | some names =>
    ((names.filter fun name => name ≠ templateId ∧ (agents.package name).manifest.isSome).map fun name =>
      name.map fun c => if c = '_' then '-' else c).insertionSort (· ≤ ·)

/-! ## The registry's row -/

/-- A setting, from its variable: blank, or only a comment, is unset. -/
def setting (raw : Option String) : Option String :=
  raw.filter fun s =>
    match s.toList.dropWhile isSpace with
    | [] => false
    | c :: _ => c ≠ '#'

/-- `AgentTier(value)`. -/
def agentTier (value : String) : Except Raised AgentTier :=
  match AgentTier.ofValue (.str value) with
  | some tier => .ok tier
  | none => .error (.valueError (pyRepr value ++ " is not a valid AgentTier"))

/-- `a or b`, of strings that may be None. -/
def strOr (a b : Option String) : Option String := (a.filter (· ≠ "")).or b

/-- The row the workflow reads; `runtimeEndpoint` is the variable
AGENTCORE_RUNTIME_ENDPOINT. -/
def toPackage (runtimeEndpoint : Option String) (manifest : Manifest) (sop : String) : Except Raised AgentPackage := do
  let tier ← agentTier manifest.tier
  return {
    agentId := manifest.id
    version := manifest.version
    name := manifest.name
    tier
    model := manifest.model
    systemPrompt := sop
    parameters := manifest.parameters
    tools := manifest.tools
    mcpServers := manifest.mcpServers
    approvalPolicy := manifest.approvalPolicy
    guardrailArn := manifest.guardrailArn
    outputModel := manifest.outputModel
    runtimeArn := strOr manifest.runtimeArn
      (if manifest.tier = AgentTier.hosted.value then setting runtimeEndpoint else none) }

end ControlPlane
