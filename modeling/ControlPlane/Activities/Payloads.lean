import ControlPlane.Activities.Sandbox
import ControlPlane.Dumps
import ControlPlane.Lib.Base64
import ControlPlane.Registry.Scaffold
import ControlPlane.Workflows.Supervised

/-!
# What is sent as JSON

The script of a sandbox, which carries the evidence of a dispute as a literal
(`_script`), and the text of a call that the guardrail is shown.

* `script_carries`: whatever the evidence says, the script is the template
  around a literal of base64, and what the script reads from it is the
  evidence.
* `dispatch_judged`: a guarded call is dispatched only after Bedrock was shown
  that very call and let it pass.
-/

namespace ControlPlane

open Replace

/-! ## The evidence of a dispute -/

structure DisputeEvidence where
  disputeId : String
  reasonCode : String
  amountUsd : PyFloat
  merchant : String
  cardholderClaim : String
  priorDisputes : ℤ
  deliveryConfirmed : Bool

def DisputeEvidence.modelDump (e : DisputeEvidence) : Attrs :=
  [("dispute_id", .str e.disputeId), ("reason_code", .str e.reasonCode), ("amount_usd", .float e.amountUsd),
    ("merchant", .str e.merchant), ("cardholder_claim", .str e.cardholderClaim),
    ("prior_disputes", .int e.priorDisputes), ("delivery_confirmed", .bool e.deliveryConfirmed)]

/-! ## The script -/

/-- `_SCRIPT_TEMPLATE`, up to the evidence. -/
def scriptHead : String := String.join [
  "\n",
  "import base64, json, random\n",
  "\n",
  "evidence = json.loads(base64.b64decode(\""]

/-- From there to the size of the history. -/
def scriptMid : String := String.join [
  "\").decode())\n",
  "random.seed(hash(evidence[\"dispute_id\"]) % (2 ** 31))\n",
  "\n",
  "history = []\n",
  "for i in range("]

def scriptTail : String := String.join [
  "):\n",
  "    history.append(\x7b\n",
  "        \"case\": f\"\x7bevidence['merchant']\x7d-hist-\x7bi:04d\x7d\",\n",
  "        \"reason_code\": random.choice(\n",
  "            [\"product_not_received\", \"duplicate_charge\", \"not_as_described\", \"fraud\"]\n",
  "        ),\n",
  "        \"amount_usd\": round(random.uniform(15, 900), 2),\n",
  "        \"delivery_confirmed\": random.random() > 0.4,\n",
  "        \"outcome\": random.choice([\"accept\", \"contest\"]),\n",
  "    \x7d)\n",
  "\n",
  "similar = [h for h in history if h[\"reason_code\"] == evidence[\"reason_code\"]]\n",
  "contest_rate = sum(1 for h in similar if h[\"outcome\"] == \"contest\") / max(len(similar), 1)\n",
  "\n",
  "risk_score = round(\n",
  "    contest_rate * 0.6\n",
  "    + (0.25 if not evidence[\"delivery_confirmed\"]\n",
  "       and evidence[\"reason_code\"] == \"product_not_received\" else 0)\n",
  "    + min(evidence[\"prior_disputes\"] / 10, 0.15),\n",
  "    3,\n",
  ")\n",
  "\n",
  "lines = [\n",
  "    f\"Risk analysis for \x7bevidence['merchant']\x7d -- dispute reason \x7bevidence['reason_code']\x7d\",\n",
  "    f\"Similar historical cases: \x7blen(similar)\x7d of \x7blen(history)\x7d\",\n",
  "    f\"Historical contest rate for this reason code: \x7bcontest_rate:.2%\x7d\",\n",
  "    f\"Computed risk_score: \x7brisk_score\x7d\",\n",
  "    \"\",\n",
  "    \"Historical case ledger (for audit):\",\n",
  "]\n",
  "lines += [json.dumps(h) for h in history]\n",
  "\n",
  "print(json.dumps(\x7b\"risk_score\": risk_score, \"report\": chr(10).join(lines)\x7d))\n"]

def evidencePlace : String := "__EVIDENCE_B64__"

def sizePlace : String := "__HISTORY_SIZE__"

def scriptTemplate : String := scriptHead ++ evidencePlace ++ scriptMid ++ sizePlace ++ scriptTail

/-- `SYNTHETIC_HISTORY_SIZE`. -/
def historySize : String := "600"

/-- A text of code points below 256, as a string. -/
def asciiString (text : List ℕ) : String := String.ofList (text.map Char.ofNat)

/-- `base64.b64encode(text.encode()).decode()`. -/
def encoded (text : Json.Text) : String := asciiString (Base64.encode ((Utf8.encode text).map UInt8.toNat))

/-- `_script`; `none` where `json.dumps` raises. -/
def script (evidence : DisputeEvidence) : Option String :=
  (jsonDumps (.dict evidence.modelDump)).map fun text =>
    replaceText sizePlace historySize (replaceText evidencePlace (encoded text) scriptTemplate)

/-- `bytes.decode()`; `none` where the bytes are no UTF-8. -/
def decodeUtf8 (bytes : List UInt8) : Option Json.Text :=
  if Utf8.encode (Utf8.decode bytes) = bytes then some (Utf8.decode bytes) else none

/-- What the script makes of its literal:
`json.loads(base64.b64decode(literal).decode())`. -/
def readLiteral (literal : String) : Option Value := do
  let bytes ← Base64.decode (Json.points literal)
  jsonLoads (← decodeUtf8 (bytes.map UInt8.ofNat))

/-! ## Where the placeholders are -/

/-- Neither placeholder is in the rest of the template. -/
theorem clear_scriptHead {old : String} (h : old ∈ [evidencePlace, sizePlace]) (rest : List Char) :
    Clear old.toList scriptHead.toList rest := by
  simp only [List.mem_cons, List.not_mem_nil, or_false] at h
  obtain rfl | rfl := h
  all_goals
    refine clear_join ?_ rest
    repeat refine List.forall_mem_cons.mpr ⟨clear_text rfl rfl (by decide +kernel), ?_⟩
    exact List.forall_mem_nil _

theorem clear_scriptMid {old : String} (h : old ∈ [evidencePlace, sizePlace]) (rest : List Char) :
    Clear old.toList scriptMid.toList rest := by
  simp only [List.mem_cons, List.not_mem_nil, or_false] at h
  obtain rfl | rfl := h
  all_goals
    refine clear_join ?_ rest
    repeat refine List.forall_mem_cons.mpr ⟨clear_text rfl rfl (by decide +kernel), ?_⟩
    exact List.forall_mem_nil _

theorem clear_scriptTail {old : String} (h : old ∈ [evidencePlace, sizePlace]) (rest : List Char) :
    Clear old.toList scriptTail.toList rest := by
  simp only [List.mem_cons, List.not_mem_nil, or_false] at h
  obtain rfl | rfl := h
  all_goals
    refine clear_join ?_ rest
    repeat refine List.forall_mem_cons.mpr ⟨clear_text rfl rfl (by decide +kernel), ?_⟩
    exact List.forall_mem_nil _

theorem toList_scriptTail : ∃ rest, scriptTail.toList = ')' :: rest := by
  have hline : "):\n".toList = [')', ':', '\n'] := by decide
  rw [scriptTail, String.join_cons, String.toList_append, hline]
  exact ⟨_, rfl⟩

/-- A text without an underscore has neither. -/
theorem clear_literal {literal : List Char} (h : '_' ∉ literal) (rest : List Char) : Clear sizePlace.toList literal rest := by
  intro s hs hne hold
  obtain ⟨c, s, rfl⟩ := List.exists_cons_of_ne_nil hne
  have hplace : sizePlace.toList = '_' :: sizePlace.toList.tail := by decide +kernel
  rw [hplace, List.cons_append] at hold
  have hc : '_' = c := (List.cons_prefix_cons.mp hold).1
  exact h (hs.mem (hc ▸ List.mem_cons_self))

/-- Both are replaced, and nothing else. -/
theorem replace_script {literal : String} (h : '_' ∉ literal.toList) :
    replaceText sizePlace historySize (replaceText evidencePlace literal scriptTemplate) =
      scriptHead ++ literal ++ (scriptMid ++ historySize ++ scriptTail) := by
  have hsize : Clear evidencePlace.toList sizePlace.toList scriptTail.toList := by
    -- a placeholder that went on in the tail would have its bracket
    refine clear_of_not_infix (by decide +kernel) fun u hu hne hpre => ?_
    obtain ⟨c, u, rfl⟩ := List.exists_cons_of_ne_nil hne
    obtain ⟨rest, htail⟩ := toList_scriptTail
    rw [htail] at hpre
    have hc : c = ')' := (List.cons_prefix_cons.mp hpre).1
    subst hc
    exact absurd (hu.mem List.mem_cons_self) (show ')' ∉ evidencePlace.toList by decide +kernel)
  have hfirst : replaceText evidencePlace literal scriptTemplate =
      scriptHead ++ literal ++ (scriptMid ++ sizePlace ++ scriptTail) := by
    rw [← String.toList_inj, replaceText, String.toList_ofList]
    simp only [scriptTemplate, String.toList_append, List.append_assoc]
    rw [replace_append (clear_scriptHead (by decide) _), replace_match (by decide +kernel),
      replace_append (clear_scriptMid (by decide) _), replace_append hsize, replace_of_clear (clear_scriptTail (by decide) _)]
  rw [hfirst, ← String.toList_inj, replaceText, String.toList_ofList]
  simp only [String.toList_append, List.append_assoc]
  rw [replace_append (clear_scriptHead (by decide) _), replace_append (clear_literal h _),
    replace_append (clear_scriptMid (by decide) _), replace_match (by decide +kernel),
    replace_of_clear (clear_scriptTail (by decide) _)]

/-! ## The literal -/

theorem toNat_ofNat {c : ℕ} (h : c < 0x80) : (Char.ofNat c).toNat = c := by
  revert c
  decide

theorem points_asciiString {text : List ℕ} (h : ∀ c ∈ text, c < 0x80) : Json.points (asciiString text) = text := by
  rw [Json.points, asciiString, String.toList_ofList, List.map_map]
  exact (List.map_congr_left fun c hc => toNat_ofNat (h c hc)).trans (List.map_id text)

theorem ascii_of_inAlphabet {c : ℕ} (h : Base64.InAlphabet c) : c < 0x80 := by
  unfold Base64.InAlphabet Base64.pad at h
  omega

theorem inAlphabet_encode (text : Json.Text) :
    ∀ c ∈ Base64.encode ((Utf8.encode text).map UInt8.toNat), Base64.InAlphabet c :=
  Base64.encode_inAlphabet (List.forall_mem_map.mpr fun b _ => b.toNat_lt)

theorem inAlphabet_encoded (text : Json.Text) : ∀ c ∈ (encoded text).toList, Base64.InAlphabet c.toNat := by
  rw [encoded, asciiString, String.toList_ofList]
  refine List.forall_mem_map.mpr fun c hc => ?_
  have ha := inAlphabet_encode text c hc
  rwa [toNat_ofNat (ascii_of_inAlphabet ha)]

/-- The literal is read as the text it was made of. -/
theorem readLiteral_encoded {text : Json.Text} (hp : Json.Printable text) :
    readLiteral (encoded text) = jsonLoads text := by
  have h : ∀ c ∈ text, Utf8.Scalar c := fun c hc => .inl ((hp c hc).2.trans (by decide))
  have hpoints : Json.points (encoded text) = Base64.encode ((Utf8.encode text).map UInt8.toNat) :=
    points_asciiString fun c hc => ascii_of_inAlphabet (inAlphabet_encode text c hc)
  have hbytes : ((Utf8.encode text).map UInt8.toNat).map UInt8.ofNat = Utf8.encode text := by
    rw [List.map_map]
    exact (List.map_congr_left fun b _ => UInt8.ofNat_toNat).trans (List.map_id _)
  have hdecode : decodeUtf8 (Utf8.encode text) = some text := by
    rw [decodeUtf8, Utf8.decode_encode h, if_pos rfl]
  rw [readLiteral, hpoints, Base64.decode_encode (List.forall_mem_map.mpr fun b _ => b.toNat_lt)]
  simp only [Option.bind_eq_bind, Option.bind_some, hbytes, hdecode]

/-! ## What the script is -/

theorem jsonable_evidence {evidence : DisputeEvidence}
    (h : (Json.Numeral.ofInt evidence.priorDisputes).int.length ≤ Json.maxDigits) : Jsonable (.dict evidence.modelDump) := by
  refine .dict (by simp [DisputeEvidence.modelDump]) ?_
  simp only [DisputeEvidence.modelDump, List.forall_mem_cons]
  exact ⟨.str _, .str _, .float _, .str _, .str _, .int h, .bool _, List.forall_mem_nil _⟩

/-- **The evidence is data.** There is a script unless the count of disputes has
more digits than Python writes. It is the template with a literal of base64 in
it, from which it reads the evidence. -/
theorem script_carries (evidence : DisputeEvidence) :
    (script evidence = none ↔ Json.maxDigits < (Json.Numeral.ofInt evidence.priorDisputes).int.length) ∧
      ∀ s ∈ script evidence, ∃ literal : String, s = scriptHead ++ literal ++ (scriptMid ++ historySize ++ scriptTail) ∧
        (∀ c ∈ literal.toList, Base64.InAlphabet c.toNat) ∧ readLiteral literal = some (.dict evidence.modelDump) := by
  by_cases hshort : (Json.Numeral.ofInt evidence.priorDisputes).int.length ≤ Json.maxDigits
  · obtain ⟨text, ht, hp, hread⟩ := jsonLoads_dumps (jsonable_evidence hshort)
    have hscript : script evidence = some (scriptHead ++ encoded text ++ (scriptMid ++ historySize ++ scriptTail)) := by
      have hplain : '_' ∉ (encoded text).toList := fun hc => absurd (inAlphabet_encoded text '_' hc) (by
        unfold Base64.InAlphabet
        decide)
      rw [script, ht, Option.map_some, replace_script hplain]
    rw [hscript]
    refine ⟨iff_of_false (Option.some_ne_none _) (Nat.not_lt_of_le hshort), fun s hs => ⟨encoded text, ?_, ?_, ?_⟩⟩
    · exact (Option.some.inj hs).symm
    · exact inAlphabet_encoded text
    · rw [readLiteral_encoded hp, hread]
  · have hnone : script evidence = none := by
      have hint : toJson (.int evidence.priorDisputes) = none := by rw [toJson, if_neg hshort]
      rw [script, jsonDumps, toJson]
      simp [DisputeEvidence.modelDump, toJsonDict, hint]
    rw [hnone]
    exact ⟨iff_of_true rfl (Nat.lt_of_not_le hshort), fun s hs => absurd hs.symm (Option.some_ne_none s)⟩

/-- A merchant who writes what would end the literal. -/
def quotedEvidence : DisputeEvidence where
  disputeId := "D-1"
  reasonCode := "fraud"
  amountUsd := .fin (Binary64.Double.ofInt 250 (by decide))
  merchant := "\").decode()) # __HISTORY_SIZE__"
  cardholderClaim := "Ünpaid\n\\"
  priorDisputes := 2
  deliveryConfirmed := false

theorem script_carries_quoted : ∃ s literal, script quotedEvidence = some s ∧
    s = scriptHead ++ literal ++ (scriptMid ++ historySize ++ scriptTail) ∧
    readLiteral literal = some (.dict quotedEvidence.modelDump) := by
  obtain ⟨hnone, hall⟩ := script_carries quotedEvidence
  obtain ⟨s, hs⟩ := Option.ne_none_iff_exists'.mp (mt hnone.mp (by decide))
  obtain ⟨literal, he, -, hread⟩ := hall s hs
  exact ⟨s, literal, hs, he, hread⟩

/-! ## What the guardrail is shown -/

/-- The text of a call, `event.tool_use.get("input", {}) or {}`; `none` where
`json.dumps` raises. -/
def guardrailText (toolUse : ToolUse) : Option Json.Text :=
  jsonDumps (.dict [("tool", .str toolUse.name), ("input", .dict toolUse.input)])

/-- What a call's text is read as. -/
def callJson (toolUse : ToolUse) : Value := .dict [("tool", .str toolUse.name), ("input", .dict toolUse.input)]

theorem guardrailText_reads {toolUse : ToolUse} (hinput : Jsonable (.dict toolUse.input)) :
    ∃ text, guardrailText toolUse = some text ∧ jsonLoads text = some (callJson toolUse) := by
  have hcall : Jsonable (callJson toolUse) := by
    refine .dict (by simp) ?_
    simp only [List.forall_mem_cons]
    exact ⟨.str _, hinput, List.forall_mem_nil _⟩
  obtain ⟨text, ht, -, hread⟩ := jsonLoads_dumps hcall
  exact ⟨text, ht, hread⟩

/-- What the guardrail's activity gives of a call, where Bedrock may answer so to
a text (`answers`). -/
inductive Judged (guardrailId guardrailVersion : String) (answers : Json.Text → Except Raised GuardrailResponse → Prop)
    (toolUse : ToolUse) : Except Raised GuardrailVerdict → Prop
  | unwritten (ht : guardrailText toolUse = none) (e : Raised) : Judged _ _ answers toolUse (.error e)
  | judged {text : Json.Text} {response : Except Raised GuardrailResponse} (ht : guardrailText toolUse = some text)
    (ha : answers text response) : Judged _ _ answers toolUse (applyGuardrail guardrailId guardrailVersion response)

/-- What was dispatched was passed to the callbacks with a verdict that does not
block it. -/
def LetPass (history : List SupervisedAction) (s : SupervisedRun) : Prop :=
  ∀ call ∈ s.dispatched, ∃ stored verdict, .pass call stored verdict ∈ history ∧ Unblocked guardedTools call.toolUse verdict

theorem letPass_step {approvalFirst : Bool} {job : AgentJobInput} {history : List SupervisedAction} {s s' : SupervisedRun}
    {a : SupervisedAction} (hI : LetPass history s) (hs : s.step approvalFirst job a = some s') :
    LetPass (history ++ [a]) s' := by
  have hkeep (c : Dispatch) (hc : c ∈ s.dispatched) : ∃ stored verdict, .pass c stored verdict ∈ history ++ [a] ∧
      Unblocked guardedTools c.toolUse verdict := by
    obtain ⟨stored, verdict, hp, hu⟩ := hI c hc
    exact ⟨stored, verdict, List.mem_append_left _ hp, hu⟩
  cases SupervisedRun.steps_of_step hs with
  | job hstep => exact hkeep
  | @pass call stored verdict package setup hp hstored =>
    obtain ⟨-, hu, he⟩ | he := SupervisedRun.pass_cases approvalFirst s setup call stored verdict
    · rw [he]
      intro c hc
      rcases List.mem_append.mp hc with hc | hc
      · exact hkeep c hc
      · cases List.mem_singleton.mp hc
        exact ⟨stored, verdict, List.mem_append_right _ (List.mem_singleton_self _), hu⟩
    · rw [he]
      exact hkeep

/-- **The guardrail judges the call.** In a run whose calls are judged each by its
own text, every call of a guarded tool that is dispatched was shown to Bedrock,
in a text that is read as that very call, and Bedrock let it pass, unless no
guardrail is configured. -/
theorem dispatch_judged (approvalFirst : Bool) (job : AgentJobInput) (guardrailId guardrailVersion : String)
    (answers : Json.Text → Except Raised GuardrailResponse → Prop) (history : List SupervisedAction) (s : SupervisedRun)
    (hr : Machine.run (SupervisedRun.step approvalFirst job) {} history = some s)
    (hjudged : ∀ call stored verdict, .pass call stored verdict ∈ history →
      Judged guardrailId guardrailVersion answers call.toolUse verdict) :
    ∀ call ∈ s.dispatched, call.toolUse.name ∈ guardedTools → Jsonable (.dict call.toolUse.input) →
      ∃ text, jsonLoads text = some (callJson call.toolUse) ∧ ((guardrailId = "" ∨ guardrailVersion = "") ∨
        ∃ response, answers text (.ok response) ∧ response.action ≠ "GUARDRAIL_INTERVENED") := by
  intro call hc hg hinput
  have hpass := Machine.run_keeps (I := LetPass) (fun _ hc => absurd hc List.not_mem_nil) (fun _ _ _ _ => letPass_step) hr
  obtain ⟨stored, verdict, hp, hu⟩ := hpass call hc
  cases hjudged call stored verdict hp with
  | unwritten ht e =>
    obtain ⟨v, hv, -⟩ := hu.resolve_left (not_not.mpr hg)
    cases hv
  | @judged text response ht ha =>
    obtain ⟨text', ht', hread⟩ := guardrailText_reads hinput
    cases ht.symm.trans ht'
    refine ⟨text, hread, ?_⟩
    refine ((applyGuardrail_unblocked_iff hg).mp hu).imp_right fun ⟨r, hresponse, haction⟩ => ⟨r, ?_, haction⟩
    rwa [← hresponse]

def filing : Dispatch :=
  ⟨"i-1", "submit_dispute_response", [("request", .dict [("dispute_id", .str "D-1"), ("amount_usd", .int 250)])]⟩

def filingRun : List SupervisedAction :=
  [.job (.marked (.ok ())), .job (.resolved (.ok { refundAgent with approvalPolicy := none, tools := [] })),
    .job (.recalled (.ok [])), .pass filing none (applyGuardrail "g-1" "1" (.ok ⟨"NONE", none⟩))]

/-- A response that Bedrock lets be filingRun. -/
theorem dispatch_judged_filing : ∃ s, Machine.run (SupervisedRun.step true refundJob) {} filingRun = some s ∧
    s.dispatched = [filing] ∧ ∃ text, jsonLoads text = some (callJson filing.toolUse) := by
  have hinput : Jsonable (.dict filing.toolUse.input) := by
    refine .dict (by decide) (List.forall_mem_singleton.mpr (.dict (by decide) ?_))
    exact List.forall_mem_cons.mpr ⟨.str _, List.forall_mem_singleton.mpr (.int (by decide +kernel))⟩
  have hjudged : ∀ call stored verdict, .pass call stored verdict ∈ filingRun →
      Judged "g-1" "1" (fun _ response => response = .ok ⟨"NONE", none⟩) call.toolUse verdict := by
    intro call stored verdict hp
    simp only [filingRun, List.mem_cons, List.not_mem_nil, or_false, reduceCtorEq, false_or, SupervisedAction.pass.injEq] at hp
    obtain ⟨rfl, rfl, rfl⟩ := hp
    obtain ⟨text, ht, -⟩ := guardrailText_reads hinput
    exact .judged ht rfl
  refine ⟨_, rfl, rfl, ?_⟩
  obtain ⟨text, hread, -⟩ := dispatch_judged true refundJob "g-1" "1" _ filingRun _ rfl hjudged filing
    (List.mem_singleton_self _) (by decide) hinput
  exact ⟨text, hread⟩

end ControlPlane
