import ControlPlane.Lib.Replace
import ControlPlane.Registry.Manifest

/-!
# The manifest of a new agent

The text `agent init` of `cli/main.py` writes in a new package's manifest
(`scaffold`): the template's, with the agent's id and its name for those of the
template.

An id that is a plain scalar of YAML is what the id line of the text then says,
and nothing else of the template changes (`scaffold_plain`).
-/

namespace ControlPlane

open Replace

/-! ## Names -/

/-- A character that is printable, and ends no line. -/
def isLineChar (c : Char) : Bool :=
  let n := c.toNat
  (0x20 ≤ n ∧ n ≤ 0x7E) ∨ (0xA0 ≤ n ∧ n ≤ 0xFFFD ∧ n ≠ 0x2028 ∧ n ≠ 0x2029) ∨ 0x10000 ≤ n

/-- Unicode's tables of cases. -/
class Casing where
  isCased : Char → Bool
  isCaseIgnorable : Char → Bool
  titlecase : Char → List Char
  lowercase : Char → List Char
  titlecase_line : ∀ c, isLineChar c → ∀ d ∈ titlecase c, isLineChar d
  lowercase_line : ∀ c, isLineChar c → ∀ d ∈ lowercase c, isLineChar d

section

variable [Casing]

/-- The first character that is not ignored is a cased one. -/
def nextToCased (cs : List Char) : Bool := ((cs.dropWhile Casing.isCaseIgnorable).head?.map Casing.isCased).getD false

/-- A capital sigma in lower case; `before` is what comes before it, from its
end on. -/
def lowerSigma (before after : List Char) : Char := if nextToCased before && !nextToCased after then 'ς' else 'σ'

/-- The rest of `s.title()`. -/
def titleFrom (before : List Char) : List Char → List Char
  | [] => []
  | c :: cs =>
    (if (before.head?.map Casing.isCased).getD false then
      if c = 'Σ' then [lowerSigma before cs] else Casing.lowercase c
    else Casing.titlecase c) ++ titleFrom (c :: before) cs

/-- `agent_id.replace("-", " ").title()`. -/
def displayName (agentId : String) : String :=
  String.ofList (titleFrom [] (agentId.toList.map fun c => if c = '-' then ' ' else c))

theorem titleFrom_line {cs : List Char} (h : ∀ c ∈ cs, isLineChar c) (before : List Char) :
    ∀ d ∈ titleFrom before cs, isLineChar d := by
  induction cs generalizing before with
  | nil => exact List.forall_mem_nil _
  | cons c cs ih =>
    obtain ⟨hc, hcs⟩ := List.forall_mem_cons.mp h
    intro d hd
    obtain hd | hd := List.mem_append.mp hd
    · split at hd
      · split at hd
        · rw [List.mem_singleton.mp hd, lowerSigma]
          split <;> decide
        · exact Casing.lowercase_line c hc d hd
      · exact Casing.titlecase_line c hc d hd
    · exact ih hcs _ d hd

theorem displayName_line {agentId : String} (h : ∀ c ∈ agentId.toList, isLineChar c) :
    ∀ d ∈ (displayName agentId).toList, isLineChar d := by
  rw [displayName, String.toList_ofList]
  refine titleFrom_line (fun d hd => ?_) []
  obtain ⟨c, hc, rfl⟩ := List.mem_map.mp hd
  split
  · rfl
  · exact h c hc

/-! ## The template -/

def templateHead : String := String.join [
  "# Agent manifest — the whole contract for a new agent.\n",
  "# Copy this folder to agents/<your_id>/, edit these fields, write the SOP, publish.\n",
  "# No workflow code, no UI code (CLAUDE.md §2).\n",
  "\n"]

def templateMid : String := " # must match the folder name (underscores become dashes)\n"

def templateTail : String := String.join [
  "\n",
  "version: 1\n",
  "\n",
  "# 1 = SOP only (no code) · 2 = SOP + custom activity tools · 3 = hosted on AgentCore Runtime\n",
  "tier: \"1\"\n",
  "\n",
  "# A key in the worker's model registry, NOT a Bedrock model id.\n",
  "# See app/temporal_client.py: bedrock-claude | bedrock-nova\n",
  "model: bedrock-claude\n",
  "\n",
  "# Tool names resolved against app/activities/catalog.py TOOL_CATALOG.\n",
  "# An unknown name fails the job non-retryably rather than running a toolless agent.\n",
  "tools: []\n",
  "\n",
  "# AgentCore Gateway MCP servers (E7.1).\n",
  "mcp_servers: []\n",
  "\n",
  "# Defaults for \x7b\x7bplaceholders\x7d\x7d in procedure.sop.md. Runtime context\n",
  "# (tenant_id, agent_id, agent_version, job_id) overrides these per job.\n",
  "parameters:\n",
  "  escalation_threshold_usd: \"200\"\n",
  "\n",
  "# Pause for a human before a matching tool call. Declarative on purpose —\n",
  "# no expression strings, so nothing is eval'd inside workflow code.\n",
  "# operator: gt | gte | lt | lte | eq | ne\n",
  "# approval_policy:\n",
  "#   tool: issue_payment\n",
  "#   field: amount_usd\n",
  "#   operator: gt\n",
  "#   value: 200\n",
  "\n",
  "# guardrail_arn: arn:aws:bedrock:...:guardrail/...\n",
  "# output_model: MyDecision\n"]

/-- The template's manifest, with an id line and a name line. -/
def templateWith (idLine nameLine : String) : String := templateHead ++ idLine ++ templateMid ++ nameLine ++ templateTail

def templateManifest : String := templateWith "id: my-agent" "name: My Agent"

/-- The rest of what it loads as. -/
def templateRest : List (String × Document) :=
  [("version", .int 1), ("tier", .str "1"), ("model", .str "bedrock-claude"), ("tools", .list []), ("mcp_servers", .list []),
    ("parameters", .dict [(.str "escalation_threshold_usd", .str "200")])]

/-! ## Filling it in -/

/-- `text.replace(old, new)`. -/
def replaceText (old new text : String) : String := String.ofList (replace old.toList new.toList text.toList)

/-- What `read_text` has of what `write_text` wrote: any end of a line is a
newline. -/
def newlines : List Char → List Char
  | '\r' :: '\n' :: cs => '\n' :: newlines cs
  | '\r' :: cs => '\n' :: newlines cs
  | c :: cs => c :: newlines cs
  | [] => []

def written (text : String) : String := String.ofList (newlines text.toList)

/-- The manifest of a new agent, of the template's text. -/
def scaffold (agentId text : String) : String :=
  written (replaceText "name: My Agent" ("name: " ++ displayName agentId)
    (replaceText "id: my-agent" ("id: " ++ agentId) text))

end

/-! ## Plain scalars -/

/-- What begins something else than a plain scalar. -/
def indicators : List Char := "-?:,[]\x7b\x7d#&*!|>'\"%@`".toList

/-- What may begin a plain scalar. -/
def startsPlain : List Char → Bool
  | [] => false
  | c :: cs => c ≠ ' ' && (c ∉ indicators || (c ∈ ['-', '?', ':'] && cs.head?.any (· ≠ ' ')))

/-- A plain scalar on one line, in a block: what YAML has as a value without
quotes. -/
def PlainScalar (s : List Char) : Prop :=
  s.all isLineChar ∧ startsPlain s ∧ s.getLast? ≠ some ' ' ∧ ¬ [':', ' '] <:+: s ++ [' '] ∧ ¬ [' ', '#'] <:+: s

instance : DecidablePred PlainScalar := fun _ => inferInstanceAs (Decidable (_ ∧ _ ∧ _ ∧ _ ∧ _))

namespace PlainScalar

variable {s : List Char}

theorem line (h : PlainScalar s) : ∀ c ∈ s, isLineChar c := List.all_eq_true.mp h.1

theorem noMapping (h : PlainScalar s) : ¬ [':', ' '] <:+: s := fun hs =>
  h.2.2.2.1 (hs.trans (List.infix_append' [] s [' ']))

theorem noComment (h : PlainScalar s) : ¬ [' ', '#'] <:+: s := h.2.2.2.2

end PlainScalar

example : PlainScalar "-a:b#".toList ∧ ¬ PlainScalar "a #b".toList ∧ ¬ PlainScalar "[a]".toList := by decide

/-! ## What is filled in -/

theorem newlines_eq {cs : List Char} (h : '\r' ∉ cs) : newlines cs = cs := by
  induction cs with
  | nil => rfl
  | cons c cs ih =>
    have hc : c ≠ '\r' := fun heq => h (heq ▸ List.mem_cons_self)
    rw [newlines, ih fun hin => h (List.mem_cons_of_mem _ hin)]
    · exact fun _ heq => absurd heq hc
    · exact hc

/-- Of strings that are written out. -/
theorem clear_text {old text : String} {o t : List Char} (ho : old = String.ofList o) (ht : text = String.ofList t)
    (h : noneStarts o t = true) (rest : List Char) : Clear old.toList text.toList rest := by
  rw [ho, ht, String.toList_ofList, String.toList_ofList]
  exact clear_of_noneStarts h rest

theorem clear_join {old : List Char} {lines : List String}
    (h : ∀ line ∈ lines, ∀ rest, Clear old line.toList rest) (rest : List Char) :
    Clear old (String.join lines).toList rest := by
  rw [String.toList_join]
  induction lines with
  | nil => exact fun s hs hne => absurd (List.suffix_nil.mp hs) hne
  | cons line lines ih =>
    rw [List.flatMap_cons]
    exact Clear.append (h line List.mem_cons_self _) (ih fun line hline => h line (List.mem_cons_of_mem _ hline))

/-- What is replaced in the template, and a return, are nowhere else in it. -/
theorem clear_head {old : String} (h : old ∈ ["id: my-agent", "name: My Agent", "\r"]) (rest : List Char) :
    Clear old.toList templateHead.toList rest := by
  simp only [List.mem_cons, List.not_mem_nil, or_false] at h
  obtain rfl | rfl | rfl := h
  all_goals
    refine clear_join ?_ rest
    repeat refine List.forall_mem_cons.mpr ⟨clear_text rfl rfl (by decide +kernel), ?_⟩
    exact List.forall_mem_nil _

theorem clear_mid {old : String} (h : old ∈ ["id: my-agent", "name: My Agent", "\r"]) (rest : List Char) :
    Clear old.toList templateMid.toList rest := by
  simp only [List.mem_cons, List.not_mem_nil, or_false] at h
  obtain rfl | rfl | rfl := h
  all_goals exact clear_text rfl rfl (by decide +kernel) rest

theorem clear_tail {old : String} (h : old ∈ ["id: my-agent", "name: My Agent", "\r"]) (rest : List Char) :
    Clear old.toList templateTail.toList rest := by
  simp only [List.mem_cons, List.not_mem_nil, or_false] at h
  obtain rfl | rfl | rfl := h
  all_goals
    refine clear_join ?_ rest
    repeat refine List.forall_mem_cons.mpr ⟨clear_text rfl rfl (by decide +kernel), ?_⟩
    exact List.forall_mem_nil _

theorem toList_templateTail : ∃ rest, templateTail.toList = '\n' :: rest := by
  have hnewline : "\n".toList = ['\n'] := by decide
  rw [templateTail, String.join_cons, String.toList_append, hnewline]
  exact ⟨_, List.singleton_append⟩

theorem toList_templateWith (idLine nameLine : String) : (templateWith idLine nameLine).toList =
    templateHead.toList ++ (idLine.toList ++ (templateMid.toList ++ (nameLine.toList ++ templateTail.toList))) := by
  simp only [templateWith, String.toList_append, List.append_assoc]

theorem replaceText_templateManifest (new : String) :
    replaceText "id: my-agent" new templateManifest = templateWith new "name: My Agent" := by
  have hname (rest : List Char) : Clear "id: my-agent".toList "name: My Agent".toList rest :=
    clear_of_noneStarts (by decide) rest
  rw [← String.toList_inj, replaceText, String.toList_ofList, templateManifest, toList_templateWith, toList_templateWith,
    replace_append (clear_head (by decide) _), replace_match (by decide), replace_append (clear_mid (by decide) _),
    replace_append (hname _), replace_of_clear (clear_tail (by decide) _)]

/-- The template's name line is not in the id line, of a plain id. -/
theorem clear_plain {s rest : List Char} (h : PlainScalar s) : Clear "name: My Agent".toList s (' ' :: '#' :: rest) := by
  refine clear_of_not_infix (fun hin => h.noMapping (List.IsInfix.trans (by decide) hin)) fun u hu hne hpre => ?_
  have hends : ∀ u ∈ "name: My Agent".toList.tails, u ≠ [' '] ∧ u.take 2 ≠ [' ', '#'] := by decide
  have hu := hends u ((List.mem_tails _ _).mpr hu)
  obtain ⟨v, hv⟩ := hpre
  rcases u with _ | ⟨c, _ | ⟨d, u⟩⟩
  · exact hne rfl
  · cases hv
    exact hu.1 rfl
  · cases hv
    exact hu.2 rfl

theorem return_notMem {cs : List Char} (h : ∀ c ∈ cs, isLineChar c) : '\r' ∉ cs := fun hr => by
  cases h '\r' hr

section

variable {agentId : String}

theorem replaceText_plain (new : String) (h : PlainScalar agentId.toList) :
    replaceText "name: My Agent" new (templateWith ("id: " ++ agentId) "name: My Agent") =
      templateWith ("id: " ++ agentId) new := by
  have hkey (rest : List Char) : Clear "name: My Agent".toList "id: ".toList rest := clear_of_noneStarts (by decide) rest
  have hid (rest : List Char) : Clear "name: My Agent".toList agentId.toList (templateMid.toList ++ rest) := clear_plain h
  rw [← String.toList_inj, replaceText, String.toList_ofList, toList_templateWith, toList_templateWith,
    String.toList_append, List.append_assoc, replace_append (clear_head (by decide) _), replace_append (hkey _),
    replace_append (hid _), replace_append (clear_mid (by decide) _), replace_match (by decide),
    replace_of_clear (clear_tail (by decide) _), List.append_assoc "id: ".toList]

/-- A plain id is in its own line, and its name in the other. -/
theorem scaffold_plain [Casing] (h : PlainScalar agentId.toList) :
    scaffold agentId templateManifest = templateWith ("id: " ++ agentId) ("name: " ++ displayName agentId) := by
  have hlines : '\r' ∉ "id: ".toList ∧ '\r' ∉ "name: ".toList := by decide
  rw [scaffold, replaceText_templateManifest, replaceText_plain _ h, written, newlines_eq, String.ofList_toList]
  simp only [toList_templateWith, String.toList_append, List.mem_append, not_or]
  have hhead : Clear "\r".toList templateHead.toList [] := clear_head (by decide) _
  have hmid : Clear "\r".toList templateMid.toList [] := clear_mid (by decide) _
  have htail : Clear "\r".toList templateTail.toList [] := clear_tail (by decide) _
  exact ⟨hhead.notMem, ⟨hlines.1, return_notMem h.line⟩, hmid.notMem,
    ⟨hlines.2, return_notMem (displayName_line h.line)⟩, htail.notMem⟩

end

end ControlPlane
