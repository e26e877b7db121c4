import Mathlib.Data.List.TakeWhile
import ControlPlane.Workflows.JobRun

/-!
# Placeholders in a prompt

A package that passes `_check_placeholders` has every placeholder of its SOP
substituted (`renderSop_put`); `render_sop` scans the SOP once, from left to
right, and does not look at what it has put.

* `text_unmatched`: what the scan leaves as text spells no placeholder.
* `prompt_free_iff`: so none is in the prompt exactly if none is spelt by the
  values put, alone or with the text next to them (`SpeltByValues`).
* `prompt_free_of_plain`: none is where neither has an opening brace.
-/

namespace ControlPlane

/-! ## What the pattern matches -/

/-- A text that `PLACEHOLDER` matches whole, with this name. -/
def Spelling (name : String) (m : List Char) : Prop :=
  ∃ before after, m = '{' :: '{' :: (before ++ (name.toList ++ (after ++ ['}', '}']))) ∧
    (∀ c ∈ before, isSpace c) ∧ (∀ c ∈ after, isSpace c) ∧
    ∃ c cs, name.toList = c :: cs ∧ isNameStart c ∧ ∀ c ∈ cs, isNameChar c

theorem isNameChar_of_isNameStart {c : Char} (h : isNameStart c) : isNameChar c := by
  have hc : isNameChar c = (isNameStart c || c.isDigit) := by
    unfold isNameChar isNameStart
    delta Char.isAlphanum
    exact Bool.or_right_comm ..
  rw [hc, h, Bool.true_or]

/-- A name has no space in it. -/
theorem not_isSpace {c : Char} (h : isNameChar c) : ¬ isSpace c := by
  have hrange : (65 ≤ c.toNat ∧ c.toNat ≤ 90) ∨ (97 ≤ c.toNat ∧ c.toNat ≤ 122) ∨ (48 ≤ c.toNat ∧ c.toNat ≤ 57) ∨
      c.toNat = 95 := by
    unfold isNameChar at h
    delta Char.isAlphanum Char.isAlpha Char.isUpper Char.isLower Char.isDigit at h
    simp only [Bool.or_eq_true, Bool.and_eq_true, decide_eq_true_eq, UInt32.le_iff_toNat_le, ge_iff_le] at h
    obtain ((h | h) | h) | rfl := h
    · exact .inl h
    · exact .inr (.inl h)
    · exact .inr (.inr (.inl h))
    · exact .inr (.inr (.inr rfl))
  simp only [isSpace, decide_eq_true_eq]
  omega

section

variable {α : Type} {p : α → Bool} {xs ys : List α}

/-- What a test holds of, up to where it does not. -/
theorem dropWhile_stop (hx : ∀ x ∈ xs, p x) (hy : ∀ y ∈ ys.head?, ¬ p y) : (xs ++ ys).dropWhile p = ys := by
  rw [List.dropWhile_append_of_pos hx]
  cases ys with
  | nil => rfl
  | cons y ys => exact List.dropWhile_cons_of_neg (hy y rfl)

theorem takeWhile_stop (hx : ∀ x ∈ xs, p x) (hy : ∀ y ∈ ys.head?, ¬ p y) : (xs ++ ys).takeWhile p = xs := by
  rw [List.takeWhile_append_of_pos hx]
  cases ys with
  | nil => exact List.append_nil xs
  | cons y ys => rw [List.takeWhile_cons_of_neg (hy y rfl), List.append_nil]

end

variable {name : String} {m cs rest : List Char}

theorem Spelling.matched (h : Spelling name m) (rest : List Char) : matchPlaceholder (m ++ rest) = some (name, rest) := by
  obtain ⟨before, after, rfl, hbefore, hafter, c, cs, hname, hc, hcs⟩ := h
  have hchar : ∀ x ∈ name.toList, isNameChar x := by
    rw [hname]
    exact List.forall_mem_cons.mpr ⟨isNameChar_of_isNameStart hc, hcs⟩
  have hstop : ∀ y ∈ (after ++ '}' :: '}' :: rest).head?, ¬ isNameChar y := by
    cases after with
    | nil => exact fun y hy => by cases hy; decide
    | cons s after =>
      rintro y hy hn
      cases hy
      exact not_isSpace hn (hafter s List.mem_cons_self)
  have hspaces : (before ++ (name.toList ++ (after ++ '}' :: '}' :: rest))).dropWhile isSpace =
      c :: (cs ++ (after ++ '}' :: '}' :: rest)) := by
    rw [hname]
    exact dropWhile_stop hbefore fun y hy => by cases hy; exact not_isSpace (isNameChar_of_isNameStart hc)
  have htake := takeWhile_stop hchar hstop
  have hdrop := dropWhile_stop hchar hstop
  have hclose : (after ++ '}' :: '}' :: rest).dropWhile isSpace = '}' :: '}' :: rest :=
    dropWhile_stop hafter fun y hy => by cases hy; decide
  rw [hname, List.cons_append] at htake hdrop
  simp only [List.cons_append, List.append_assoc, List.nil_append, matchPlaceholder, hspaces, hc, if_true, htake, hdrop,
    hclose, ← hname, String.ofList_toList]

theorem spelling_of_match (h : matchPlaceholder cs = some (name, rest)) : ∃ m, cs = m ++ rest ∧ Spelling name m := by
  unfold matchPlaceholder at h
  split at h
  · rename_i cs
    dsimp only at h
    split at h
    · rename_i c cs' hcs
      split at h
      · rename_i hc
        split at h
        · rename_i rest' hrest
          cases h
          have hspaces : cs = cs.takeWhile isSpace ++ cs.dropWhile isSpace := List.takeWhile_append_dropWhile.symm
          have hname : cs.dropWhile isSpace = (cs.dropWhile isSpace).takeWhile isNameChar ++
              (cs.dropWhile isSpace).dropWhile isNameChar := List.takeWhile_append_dropWhile.symm
          have hafter : (cs.dropWhile isSpace).dropWhile isNameChar =
              ((cs.dropWhile isSpace).dropWhile isNameChar).takeWhile isSpace ++ '}' :: '}' :: rest := by
            rw [← hrest]
            exact List.takeWhile_append_dropWhile.symm
          have hstart : (cs.dropWhile isSpace).takeWhile isNameChar = c :: cs'.takeWhile isNameChar := by
            rw [hcs, List.takeWhile_cons_of_pos (isNameChar_of_isNameStart hc)]
          refine ⟨_, ?_, cs.takeWhile isSpace, ((cs.dropWhile isSpace).dropWhile isNameChar).takeWhile isSpace, rfl,
            fun x hx => List.mem_takeWhile_imp hx, fun x hx => List.mem_takeWhile_imp hx, c, cs'.takeWhile isNameChar, ?_, hc,
            fun x hx => List.mem_takeWhile_imp hx⟩
          · rw [String.toList_ofList]
            simp only [List.cons_append, List.append_assoc, List.nil_append]
            rw [← hafter, ← hname, ← hspaces]
          · rw [String.toList_ofList, hstart]
        · cases h
      · cases h
    · cases h
  · cases h

/-! ## What the scan leaves -/

/-- No text in it is one that `PLACEHOLDER` matches. -/
def PlaceholderFree (text : List Char) : Prop := ∀ rest, rest <:+ text → matchPlaceholder rest = none

theorem placeholderFree_iff {text : List Char} :
    PlaceholderFree text ↔ ∀ name m, Spelling name m → ¬ m <:+: text := by
  constructor
  · rintro h name m hm ⟨before, after, rfl⟩
    have hnone := h (m ++ after) ⟨before, by rw [List.append_assoc]⟩
    rw [hm.matched] at hnone
    cases hnone
  · intro h rest hrest
    rw [Option.eq_none_iff_forall_ne_some]
    rintro ⟨name, after⟩ hmatch
    obtain ⟨m, rfl, hm⟩ := spelling_of_match hmatch
    obtain ⟨before, rfl⟩ := hrest
    exact h name m hm ⟨before, after, by rw [List.append_assoc]⟩

/-- The pieces after some of a text's characters are those of what follows them. -/
theorem pieces_text {n : ℕ} {m : List Char} {ps : List Piece} (h : pieces n cs = m.map .text ++ ps) :
    ∃ rest, cs = m ++ rest ∧ ∃ n, ps = pieces n rest := by
  induction m generalizing n cs with
  | nil => exact ⟨cs, rfl, n, h.symm⟩
  | cons c m ih =>
    cases n with
    | zero => cases h
    | succ n =>
      cases cs with
      | nil => cases h
      | cons d cs =>
        rw [pieces] at h
        split at h
        · cases h
        · obtain ⟨hc, hcons⟩ := List.cons.inj h
          cases hc
          obtain ⟨rest, rfl, hps⟩ := ih hcons
          exact ⟨rest, rfl, hps⟩

/-- The pieces after some are the pieces of some text. -/
theorem pieces_drop {n : ℕ} {before after : List Piece} (h : pieces n cs = before ++ after) :
    ∃ n rest, after = pieces n rest := by
  induction before generalizing n cs with
  | nil => exact ⟨n, cs, h.symm⟩
  | cons p before ih =>
    cases n with
    | zero => cases h
    | succ n =>
      cases cs with
      | nil => cases h
      | cons c cs =>
        rw [pieces] at h
        split at h <;> exact ih (List.cons.inj h).2

/-- No characters left as text spell a placeholder. -/
theorem text_unmatched {n : ℕ} {m : List Char} {before after : List Piece}
    (h : pieces n cs = before ++ (m.map .text ++ after)) : ¬ Spelling name m := by
  intro hm
  obtain ⟨n, rest, hrest⟩ := pieces_drop h
  obtain ⟨follows, rfl, -⟩ := pieces_text hrest.symm
  cases m with
  | nil => cases hm.matched []
  | cons c m =>
    -- the scan would have taken the placeholder at its first brace
    have hmatched : matchPlaceholder (c :: (m ++ follows)) = some (name, follows) := hm.matched follows
    cases n with
    | zero => cases hrest
    | succ n =>
      rw [List.cons_append, pieces, hmatched] at hrest
      cases (List.cons.inj hrest).1

/-! ## Where a part of a text comes from -/

section

variable {α β : Type} {f : β → List α} {ps : List β} {a b m : List α}

/-- What the first item gives that is not before a place in the text. -/
theorem flatMap_at (h : ps.flatMap f = a ++ b) (hb : b ≠ []) :
    ∃ before p after a', ps = before ++ p :: after ∧ a = before.flatMap f ++ a' ∧ a'.length < (f p).length := by
  induction ps generalizing a with
  | nil => exact absurd (List.append_eq_nil_iff.mp h.symm).2 hb
  | cons p ps ih =>
    rw [List.flatMap_cons] at h
    by_cases hlt : a.length < (f p).length
    · exact ⟨[], p, ps, a, rfl, rfl, hlt⟩
    · obtain ⟨a', rfl⟩ : f p <+: a := List.prefix_of_prefix_length_le ⟨_, h⟩ ⟨_, rfl⟩ (not_lt.mp hlt)
      rw [List.append_assoc, List.append_cancel_left_eq] at h
      obtain ⟨before, q, after, a'', rfl, rfl, hin⟩ := ih h
      exact ⟨p :: before, q, after, a'', rfl, by rw [List.flatMap_cons, List.append_assoc], hin⟩

/-- What is parted after its beginning is parted at or in a piece: the last that is
not behind the parting. -/
theorem flatMap_until (h : ps.flatMap f = a ++ b) (ha : a ≠ []) :
    ∃ before p after b', ps = before ++ p :: after ∧ b = b' ++ after.flatMap f ∧ b'.length < (f p).length := by
  have hrev : ps.reverse.flatMap (List.reverse ∘ f) = b.reverse ++ a.reverse := by
    rw [← List.reverse_append, ← h, List.reverse_flatMap]
  obtain ⟨after, p, before, b', hps, hb, hlt⟩ := flatMap_at hrev (mt List.reverse_eq_nil_iff.mp ha)
  refine ⟨before.reverse, p, after.reverse, b'.reverse, ?_, ?_, ?_⟩
  · rw [← List.reverse_reverse ps, hps, List.reverse_append, List.reverse_cons, List.append_assoc, List.singleton_append]
  · rw [← List.reverse_reverse b, hb, List.reverse_append, List.flatMap_reverse]
  · rw [List.length_reverse]
    simpa using hlt

/-- The items that a part of the text is from: it begins in what the first
gives, and ends in what the last does. -/
theorem flatMap_cover (h : ps.flatMap f = a ++ (m ++ b)) (hm : m ≠ []) :
    ∃ before run after a' b', ps = before ++ (run ++ after) ∧ run.flatMap f = a' ++ (m ++ b') ∧
      (∀ p ∈ run.head?, a'.length < (f p).length) ∧ ∀ p ∈ run.getLast?, b'.length < (f p).length := by
  obtain ⟨before, p, rest, a', rfl, rfl, ha⟩ := flatMap_at h fun e => hm (List.append_eq_nil_iff.mp e).1
  rw [List.flatMap_append, List.append_assoc, List.append_cancel_left_eq, ← List.append_assoc] at h
  obtain ⟨front, q, after, b', hrun, rfl, hb⟩ := flatMap_until h fun e => hm (List.append_eq_nil_iff.mp e).2
  refine ⟨before, front ++ [q], after, a', b', by simp [hrun], ?_, ?_, fun r hr => ?_⟩
  · rw [hrun] at h
    simp only [List.flatMap_append, List.flatMap_cons, List.flatMap_nil, ← List.append_assoc, List.append_nil,
      List.append_cancel_right_eq] at h ⊢
    exact h
  · have hhead : (front ++ [q]).head? = some p := by
      cases front with
      | nil => cases hrun; rfl
      | cons r front => cases hrun; rfl
    rintro r hr
    rw [hhead] at hr
    cases hr
    exact ha
  · rw [List.getLast?_concat] at hr
    cases hr
    exact hb

end

/-! ## What is put for a placeholder -/

/-- What the context gives for a piece. -/
def Piece.put (context : List (String × String)) : Piece → List Char
  | .text c => [c]
  | .placeholder name _ => ((context.lookup name).map String.toList).getD []

/-- A placeholder that is spelt by values put, or by them and the text next to
them: over some pieces not all of them text, from within what is put for the
first into what is put for the last. -/
def SpeltByValues (context : List (String × String)) (ps : List Piece) : Prop :=
  ∃ before run after name m a b, ps = before ++ (run ++ after) ∧ matchPlaceholder m = some (name, []) ∧
    run.flatMap (Piece.put context) = a ++ (m ++ b) ∧
    (∀ p ∈ run.head?, a.length < (p.put context).length) ∧ (∀ p ∈ run.getLast?, b.length < (p.put context).length) ∧
    ∃ name verbatim, .placeholder name verbatim ∈ run

/-- The text of pieces that are all text. -/
theorem flatMap_put_text {context : List (String × String)} {run : List Piece}
    (h : ∀ name verbatim, .placeholder name verbatim ∉ run) : run = (run.flatMap (Piece.put context)).map .text := by
  induction run with
  | nil => rfl
  | cons p run ih =>
    cases p with
    | text c =>
      have hrun := ih fun name verbatim hp => h name verbatim (List.mem_cons_of_mem _ hp)
      rw [List.flatMap_cons, List.map_append, ← hrun]
      rfl
    | placeholder name verbatim => exact absurd List.mem_cons_self (h name verbatim)

/-- Of pieces that are all text, each one character, those that cover a part
of the text are its characters. -/
theorem text_cover {context : List (String × String)} {run : List Piece} {a b : List Char}
    (hplain : ∀ name verbatim, .placeholder name verbatim ∉ run) (hrun : run.flatMap (Piece.put context) = a ++ (m ++ b))
    (hm : m ≠ []) (ha : ∀ p ∈ run.head?, a.length < (p.put context).length)
    (hb : ∀ p ∈ run.getLast?, b.length < (p.put context).length) : run = m.map .text := by
  have hone : ∀ p ∈ run, (p.put context).length = 1 := by
    intro p hp
    cases p with
    | text c => rfl
    | placeholder name verbatim => exact absurd hp (hplain name verbatim)
  have hne : run ≠ [] := fun e => by
    rw [e] at hrun
    exact hm (List.append_eq_nil_iff.mp (List.append_eq_nil_iff.mp hrun.symm).2).1
  have ha' : a = [] := by
    have hlt := ha _ (List.head?_eq_some_head hne)
    rw [hone _ (List.head_mem hne)] at hlt
    exact List.length_eq_zero_iff.mp (by omega)
  have hb' : b = [] := by
    have hlt := hb _ (List.getLast?_eq_some_getLast hne)
    rw [hone _ (List.getLast_mem hne)] at hlt
    exact List.length_eq_zero_iff.mp (by omega)
  rw [ha', hb', List.nil_append, List.append_nil] at hrun
  rw [flatMap_put_text hplain, hrun]

/-- Of what is put for the pieces of a text, none spells a placeholder exactly
if no values do. -/
theorem put_free_iff {context : List (String × String)} {n : ℕ} :
    PlaceholderFree ((pieces n cs).flatMap (Piece.put context)) ↔ ¬ SpeltByValues context (pieces n cs) := by
  rw [placeholderFree_iff]
  constructor
  · rintro h ⟨before, run, after, name, m, a, b, hps, hm, hrun, -, -, -⟩
    obtain ⟨m', rfl, hspell⟩ := spelling_of_match hm
    refine h name m' hspell ?_
    rw [hps, List.flatMap_append, List.flatMap_append, hrun]
    exact ⟨before.flatMap (Piece.put context) ++ a, b ++ after.flatMap (Piece.put context), by simp⟩
  · rintro h name m hm ⟨a, b, htext⟩
    have hne : m ≠ [] := fun e => by
      rw [e] at hm
      cases hm.matched []
    rw [List.append_assoc] at htext
    obtain ⟨before, run, after, a', b', hps, hrun, ha, hb⟩ := flatMap_cover htext.symm hne
    by_cases hplain : ∀ name verbatim, .placeholder name verbatim ∉ run
    · rw [text_cover hplain hrun hne ha hb] at hps
      exact text_unmatched hps hm
    · push Not at hplain
      refine h ⟨before, run, after, name, m, a', b', hps, ?_, hrun, ha, hb, hplain⟩
      have hself := hm.matched []
      rwa [List.append_nil] at hself

/-! ## A job's prompt -/

/-- What a job gives for a package's placeholders. -/
def promptContext (job : AgentJobInput) (parameters : List (String × String)) : List (String × String) :=
  [("tenant_id", job.tenantId), ("agent_id", job.agentId), ("agent_version", toString job.agentVersion),
    ("job_id", job.jobId)] ++ parameters

/-- What the checks find declared, a job gives. -/
theorem promptContext_some {job : AgentJobInput} {parameters : List (String × String)}
    (h : name ∈ runtimePlaceholders ∨ name ∈ parameters.map Prod.fst) :
    ((promptContext job parameters).lookup name).isSome := by
  have hmem : name ∈ (promptContext job parameters).map Prod.fst := by
    rw [promptContext, List.map_append, List.mem_append]
    exact h
  obtain ⟨kv, hkv, rfl⟩ := List.mem_map.mp hmem
  exact List.lookup_isSome_iff.mpr ⟨kv, hkv, beq_self_eq_true kv.1⟩

/-- Every placeholder is substituted. -/
theorem renderSop_put {context : List (String × String)} {sop : String}
    (h : ∀ name ∈ placeholders sop, (context.lookup name).isSome) :
    (renderSop sop context).toList = (sopPieces sop).flatMap (Piece.put context) := by
  rw [renderSop, String.toList_ofList]
  refine List.flatMap_congr fun piece hpiece => ?_
  cases piece with
  | text c => rfl
  | placeholder name verbatim =>
    have hname : name ∈ placeholders sop := by
      rw [placeholders, List.mem_dedup, List.mem_filterMap]
      exact ⟨_, hpiece, rfl⟩
    obtain ⟨value, hvalue⟩ := Option.isSome_iff_exists.mp (h name hname)
    simp only [Piece.put, hvalue, Option.map_some, Option.getD_some]

/-- The prompt of a package that passes the check of its placeholders has none
exactly if none is spelt by the values put for them. -/
theorem prompt_free_iff (manifest : Manifest) (sop : String) (job : AgentJobInput) (package : AgentPackage)
    (hcheck : checkPlaceholders manifest sop = [])
    (hsop : package.systemPrompt = sop) (hparameters : package.parameters = manifest.parameters) :
    PlaceholderFree (systemPrompt job package []).toList ↔
      ¬ SpeltByValues (promptContext job manifest.parameters) (sopPieces sop) := by
  have hresolved : ∀ name ∈ placeholders sop, ((promptContext job manifest.parameters).lookup name).isSome :=
    fun name hname => promptContext_some ((checkPlaceholders_nil.mp hcheck).1 name hname)
  have hprompt : systemPrompt job package [] = renderSop sop (promptContext job manifest.parameters) := by
    rw [systemPrompt, if_pos rfl, hsop, hparameters, promptContext]
  rw [hprompt, renderSop_put hresolved]
  exact put_free_iff

/-- None is where neither the values nor the text has an opening brace. -/
theorem prompt_free_of_plain (manifest : Manifest) (sop : String) (job : AgentJobInput) (package : AgentPackage)
    (hcheck : checkPlaceholders manifest sop = [])
    (hsop : package.systemPrompt = sop) (hparameters : package.parameters = manifest.parameters)
    (hvalues : ∀ kv ∈ promptContext job manifest.parameters, '{' ∉ kv.2.toList)
    (htext : Piece.text '{' ∉ sopPieces sop) : PlaceholderFree (systemPrompt job package []).toList := by
  refine (prompt_free_iff manifest sop job package hcheck hsop hparameters).mpr ?_
  rintro ⟨before, run, after, name, m, a, b, hps, hm, hrun, -⟩
  obtain ⟨m', rfl, before', after', rfl, -⟩ := spelling_of_match hm
  have hbrace : '{' ∈ run.flatMap (Piece.put (promptContext job manifest.parameters)) := by
    rw [hrun]
    simp
  obtain ⟨p, hp, hc⟩ := List.mem_flatMap.mp hbrace
  cases p with
  | text c =>
    obtain rfl := List.mem_singleton.mp hc
    exact htext (hps ▸ List.mem_append_right _ (List.mem_append_left _ hp))
  | placeholder name verbatim =>
    rw [Piece.put] at hc
    cases hl : (promptContext job manifest.parameters).lookup name with
    | none =>
      rw [hl] at hc
      cases hc
    | some value =>
      rw [hl] at hc
      obtain ⟨before, after, hcontext, -⟩ := List.lookup_eq_some_iff.mp hl
      exact hvalues (name, value) (by rw [hcontext]; simp) hc

/-! ## Braces around a placeholder -/

/-- A manifest with one parameter. -/
def severityManifest : Manifest where
  id := "incident-triage"
  name := "Incident Triage"
  parameters := [("severity", "high")]

/-- The package of that manifest, with a procedure. -/
def severityPackage (sop : String) : AgentPackage where
  agentId := "incident-triage"
  version := 1
  name := "Incident Triage"
  tier := .noCode
  model := "bedrock-claude"
  systemPrompt := sop
  parameters := severityManifest.parameters

theorem prompt_free_iff_severity :
    PlaceholderFree (systemPrompt JobRun.triageJob (severityPackage "Severity: {{severity}}.") []).toList ↔
      ¬ SpeltByValues (promptContext JobRun.triageJob severityManifest.parameters) (sopPieces "Severity: {{severity}}.") :=
  prompt_free_iff severityManifest _ JobRun.triageJob (severityPackage "Severity: {{severity}}.") (by decide +kernel) rfl rfl

/-- A value between braces of the text. -/
theorem prompt_ships_placeholder :
    checkPlaceholders severityManifest "Severity: {{{{severity}}}}." = [] ∧
      systemPrompt JobRun.triageJob (severityPackage "Severity: {{{{severity}}}}.") [] = "Severity: {{high}}." ∧
      ¬ PlaceholderFree (systemPrompt JobRun.triageJob (severityPackage "Severity: {{{{severity}}}}.") []).toList := by
  have hprompt : systemPrompt JobRun.triageJob (severityPackage "Severity: {{{{severity}}}}.") [] = "Severity: {{high}}." := by
    decide +kernel
  refine ⟨by decide +kernel, hprompt, fun h => ?_⟩
  rw [hprompt] at h
  have hmatch : matchPlaceholder "{{high}}.".toList = some ("high", ['.']) := by decide +kernel
  have hnone := h "{{high}}.".toList ⟨"Severity: ".toList, by decide +kernel⟩
  rw [hmatch] at hnone
  cases hnone

end ControlPlane
