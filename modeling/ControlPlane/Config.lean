import ControlPlane.Registry.Manifest

/-!
# Settings

`Settings` of `app/config.py`, from the variables of the environment and of
`.env`: a variable that is blank, or only a comment, counts as unset
(`setting`), and the settings load if every field takes what its variable then
has (`load_ok`).
-/

namespace ControlPlane

structure Settings where
  appEnv : String
  temporalAddress : String
  temporalNamespace : String
  taskQueue : String
  temporalCloudApiKey : String
  buildId : String
  awsRegion : String
  awsProfile : Option String
  bedrockClaudeModelId : String
  bedrockNovaModelId : String
  bedrockGuardrailId : Option String
  bedrockGuardrailVersion : Option String
  bedrockApiKey : Option String
  agentcoreGatewayUrl : Option String
  agentcoreMemoryId : Option String
  agentcoreRuntimeEndpoint : Option String
  dynamodbTableName : String
  s3BucketName : Option String
  mockoonBaseUrl : String
  apiHost : String
  apiPort : ℤ

namespace Settings

/-- What a field is, of a variable that may be unset. -/
inductive Kind
  /-- `str`. -/
  | required
  /-- `str | None = None`. -/
  | optional
  /-- `str`, with a default. -/
  | text
  /-- `int`, with a default. -/
  | number

def fields : List (String × Kind) :=
  [("app_env", .text), ("temporal_address", .required), ("temporal_namespace", .required), ("task_queue", .required),
    ("temporal_cloud_api_key", .required), ("build_id", .text), ("aws_region", .required), ("aws_profile", .optional),
    ("bedrock_claude_model_id", .required), ("bedrock_nova_model_id", .required), ("bedrock_guardrail_id", .optional),
    ("bedrock_guardrail_version", .optional), ("bedrock_api_key", .optional), ("agentcore_gateway_url", .optional),
    ("agentcore_memory_id", .optional), ("agentcore_runtime_endpoint", .optional), ("dynamodb_table_name", .required),
    ("s3_bucket_name", .optional), ("mockoon_base_url", .required), ("api_host", .text), ("api_port", .number)]

section

variable [Pydantic]

/-- Whether the field takes what its variable has. A default stands for a
variable that is not there; one that is blank is None, which only an optional
field takes. -/
def Kind.accepts : Kind → Option String → Bool
  | .required, raw => (setting raw).isSome
  | .optional, _ => true
  | .text, raw => raw.isNone || (setting raw).isSome
  | .number, raw => raw.isNone || (setting raw >>= Pydantic.parseInt).isSome

/-- `Settings()`; a ValidationError names the fields in error. -/
def load (env : String → Option String) : Except (List String) Settings :=
  match fields.filter fun field => !field.2.accepts (env field.1) with
  | [] =>
    let text := fun name default => (setting (env name)).getD default
    .ok {
      appEnv := text "app_env" "local"
      temporalAddress := text "temporal_address" ""
      temporalNamespace := text "temporal_namespace" ""
      taskQueue := text "task_queue" ""
      temporalCloudApiKey := text "temporal_cloud_api_key" ""
      buildId := text "build_id" "v1"
      awsRegion := text "aws_region" ""
      awsProfile := setting (env "aws_profile")
      bedrockClaudeModelId := text "bedrock_claude_model_id" ""
      bedrockNovaModelId := text "bedrock_nova_model_id" ""
      bedrockGuardrailId := setting (env "bedrock_guardrail_id")
      bedrockGuardrailVersion := setting (env "bedrock_guardrail_version")
      bedrockApiKey := setting (env "bedrock_api_key")
      agentcoreGatewayUrl := setting (env "agentcore_gateway_url")
      agentcoreMemoryId := setting (env "agentcore_memory_id")
      agentcoreRuntimeEndpoint := setting (env "agentcore_runtime_endpoint")
      dynamodbTableName := text "dynamodb_table_name" ""
      s3BucketName := setting (env "s3_bucket_name")
      mockoonBaseUrl := text "mockoon_base_url" ""
      apiHost := text "api_host" "0.0.0.0"
      apiPort := (setting (env "api_port") >>= Pydantic.parseInt).getD 8000 }
  | invalid => .error (invalid.map Prod.fst)

/-- Every field takes what its variable has. -/
def Loads (env : String → Option String) : Prop := ∀ field ∈ fields, field.2.accepts (env field.1)

theorem load_ok {env : String → Option String} : (∃ settings, load env = .ok settings) ↔ Loads env := by
  have hnone : (fields.filter fun field => !field.2.accepts (env field.1)) = [] ↔ Loads env := by
    rw [List.filter_eq_nil_iff]
    exact forall₂_congr fun field _ => by rw [Bool.not_eq_true', Bool.not_eq_false]
  rw [← hnone, load]
  split
  · rename_i hnil
    exact iff_of_true ⟨_, rfl⟩ hnil
  · rename_i hne
    exact iff_of_false (fun ⟨_, h⟩ => by cases h) hne

end

end Settings

end ControlPlane
