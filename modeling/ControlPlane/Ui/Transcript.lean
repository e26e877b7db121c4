import ControlPlane.Lib.Runs
import ControlPlane.Ui.Reconnect

/-!
# Streamed text

What a transcript shows of a stream, with tokens shown: the model's deltas,
each of a text, of reasoning or of a tool's input, among the events of the job.

`transcript_runs`: an entry for every maximal run of what is displayed, with
the run's whole text, and no two entries that could be one.
-/

namespace ControlPlane

/-! ## Runs of deltas -/

namespace Produced

/-- The text of a delta that has one. -/
def text : Produced → Option String
  | modelStream event => ((event.contentBlockDelta.getD {}).delta.getD {}).text
  | jobStarted _ | memoryRecall _ | hostedToolCall _ | guardrail _ _ | approvalPending _ | approvalResumed _
  | jobFinished _ => none

def reasoning : Produced → Option String
  | modelStream event => (((event.contentBlockDelta.getD {}).delta.getD {}).reasoningContent.getD {}).text
  | jobStarted _ | memoryRecall _ | hostedToolCall _ | guardrail _ _ | approvalPending _ | approvalResumed _
  | jobFinished _ => none

/-- A delta carries a text or reasoning, not both. -/
def CarriesOne (p : Produced) : Prop := p.text = none ∨ p.reasoning = none

def displayed (jobId : String) (p : Produced) : Bool := (shows jobId true p.item).isSome

/-- Two texts, or two of reasoning. -/
def joins (p q : Produced) : Bool := p.text.isSome && q.text.isSome || p.reasoning.isSome && q.reasoning.isSome

end Produced

/-- The maximal runs of what is displayed of a stream; an event is a run of
its own. -/
def runs (jobId : String) (log : List Produced) : List (List Produced) :=
  (log.filter fun p => p.displayed jobId).splitBy Produced.joins

/-- The entry of a run: its texts, concatenated. -/
inductive RunShown (jobId : String) : List Produced → Entry → Prop
  | text {run : List Produced} {texts : List String} (h : run.map Produced.text = texts.map some) :
    RunShown jobId run (.text (some (.str (String.join texts))))
  | reasoning {run : List Produced} {texts : List String} (h : run.map Produced.reasoning = texts.map some) :
    RunShown jobId run (.reasoning (some (.str (String.join texts))))
  | other {p : Produced} {entry : Entry} (ht : p.text = none) (hr : p.reasoning = none)
    (hs : shows jobId true p.item = some entry) : RunShown jobId [p] entry

namespace Entry

def isText : Entry → Bool
  | text _ => true
  | reasoning _ | tool _ | guardrail _ _ _ | «recall» _ | note _ => false

def isReasoning : Entry → Bool
  | reasoning _ => true
  | text _ | tool _ | guardrail _ _ _ | «recall» _ | note _ => false

/-- Both are text, or both reasoning. -/
def joins (a b : Entry) : Bool := a.isText && b.isText || a.isReasoning && b.isReasoning

end Entry

/-! ## What an item shows -/

section

variable {jobId : String} {p : Produced} {entry : Entry}

/-- A delta's text if it has one, else its reasoning, and nothing of either
that is empty. -/
theorem shows_delta (jobId : String) (delta : ContentBlockDeltaEvent) (start : Option ContentBlockStartEvent) :
    shows jobId true (.modelStream ⟨some delta, start⟩) =
      ((StreamEvent.deltaText delta).map fun text => Entry.text (some (.str text))).or
        ((StreamEvent.reasoningText delta).map fun text => Entry.reasoning (some (.str text))) := by
  have hflat (kind text : String) (handler : Attrs → Entry)
      (hl : (handlers true).lookup kind = some (onFlat handler)) :
      received true ⟨kind, [("job_id", .str jobId), ("kind", .str kind), ("text", .str text)]⟩ =
        some (handler [("job_id", .str jobId), ("kind", .str kind), ("text", .str text)]) :=
    received_flat hl (by simp [isJsonDict, isJson])
  show ((translateStreamEvent ⟨some delta, start⟩).map _).bind (received true) = _
  cases ht : StreamEvent.deltaText delta with
  | some text =>
    simp only [translateStreamEvent, ht]
    exact (hflat "token" text _ rfl).trans rfl
  | none =>
    cases hr : StreamEvent.reasoningText delta with
    | some text =>
      simp only [translateStreamEvent, ht, hr]
      exact (hflat "reasoning" text _ rfl).trans rfl
    | none =>
      simp only [translateStreamEvent, ht, hr]
      rfl

/-- The event of a job is neither. -/
theorem shows_jobEvent {event : UIEvent} (hn : event.kind ∉ ["token", "reasoning"])
    (hs : shows jobId true (.jobEvents event) = some entry) : entry.isText = false ∧ entry.isReasoning = false := by
  have hr : received true ⟨event.kind, event.modelDump jobId⟩ = some entry := hs
  obtain ⟨handler, hl, hd⟩ := Option.bind_eq_some_iff.mp hr
  obtain ⟨data, -, he⟩ := Option.bind_eq_some_iff.mp hd
  cases he
  rw [handlers_lookup event.kind hn] at hl
  obtain ⟨before, after, hsplit, -⟩ := List.lookup_eq_some_iff.mp hl
  have hm : (event.kind, handler) ∈ handlers false := hsplit ▸ List.mem_append_right _ List.mem_cons_self
  simp only [handlers, Bool.false_eq_true, if_false, List.nil_append, List.mem_cons, List.not_mem_nil, or_false,
    Prod.mk.injEq] at hm
  rcases hm with ⟨-, rfl⟩ | ⟨-, rfl⟩ | ⟨-, rfl⟩ | ⟨-, rfl⟩ | ⟨-, rfl⟩ | ⟨-, rfl⟩ | ⟨-, rfl⟩
  all_goals exact ⟨rfl, rfl⟩

theorem shows_carried (h : p.text ≠ none ∨ p.reasoning ≠ none) :
    shows jobId true p.item =
      ((p.text.filter (· ≠ "")).map fun text => Entry.text (some (.str text))).or
        ((p.reasoning.filter (· ≠ "")).map fun text => Entry.reasoning (some (.str text))) := by
  cases p with
  | modelStream event =>
    obtain ⟨_ | delta, start⟩ := event
    · exact absurd h (by simp [Produced.text, Produced.reasoning])
    · exact shows_delta jobId delta start
  | jobStarted job => exact absurd h (by simp [Produced.text, Produced.reasoning])
  | memoryRecall notes => exact absurd h (by simp [Produced.text, Produced.reasoning])
  | hostedToolCall agentId => exact absurd h (by simp [Produced.text, Produced.reasoning])
  | guardrail tool verdict => exact absurd h (by simp [Produced.text, Produced.reasoning])
  | approvalPending pending => exact absurd h (by simp [Produced.text, Produced.reasoning])
  | approvalResumed decision => exact absurd h (by simp [Produced.text, Produced.reasoning])
  | jobFinished stopReason => exact absurd h (by simp [Produced.text, Produced.reasoning])

theorem shows_text {text : String} (ht : p.text = some text) (hr : p.reasoning = none) :
    shows jobId true p.item = ((some text).filter (· ≠ "")).map fun text => Entry.text (some (.str text)) := by
  rw [shows_carried (.inl (ht ▸ Option.some_ne_none text)), ht, hr]
  exact Option.or_none

theorem shows_reasoning {text : String} (ht : p.text = none) (hr : p.reasoning = some text) :
    shows jobId true p.item = ((some text).filter (· ≠ "")).map fun text => Entry.reasoning (some (.str text)) := by
  rw [shows_carried (.inr (hr ▸ Option.some_ne_none text)), ht, hr]
  rfl

theorem shows_other (ht : p.text = none) (hr : p.reasoning = none) (hs : shows jobId true p.item = some entry) :
    entry.isText = false ∧ entry.isReasoning = false := by
  cases p with
  | modelStream event =>
    obtain ⟨_ | delta, start⟩ := event
    · obtain ⟨sse, hsse, hreceived⟩ := Option.bind_eq_some_iff.mp hs
      obtain ⟨translated, htranslated, rfl⟩ := Option.map_eq_some_iff.mp hsse
      obtain ⟨toolUse, -, rfl⟩ := Option.map_eq_some_iff.mp htranslated
      cases (received_toolUse jobId true toolUse).symm.trans hreceived
      exact ⟨rfl, rfl⟩
    · have htext : StreamEvent.deltaText delta = Option.filter (· ≠ "") none := congrArg (·.filter (· ≠ "")) ht
      have hreasoning : StreamEvent.reasoningText delta = Option.filter (· ≠ "") none := congrArg (·.filter (· ≠ "")) hr
      have hnone := shows_delta jobId delta start
      rw [htext, hreasoning] at hnone
      cases hnone.symm.trans hs
  | jobStarted job => exact shows_jobEvent (by simp [UIEvent.jobStarted]) hs
  | memoryRecall notes => exact shows_jobEvent (by simp [UIEvent.memoryRecall]) hs
  | hostedToolCall agentId => exact shows_jobEvent (by simp [UIEvent.toolCall]) hs
  | guardrail tool verdict => exact shows_jobEvent (by simp [UIEvent.guardrail]) hs
  | approvalPending pending => exact shows_jobEvent (by simp [UIEvent.approvalPending]) hs
  | approvalResumed decision => exact shows_jobEvent (by simp [UIEvent.approvalResumed]) hs
  | jobFinished stopReason => exact shows_jobEvent (by simp [UIEvent.jobFinished]) hs

/-! ## Entries and runs -/

theorem append_text (entries : List Entry) (a b : Option Value) :
    append (entries ++ [.text a]) (.text b) = entries ++ [.text (jsConcat a b)] := by
  simp [append]

theorem append_reasoning (entries : List Entry) (a b : Option Value) :
    append (entries ++ [.reasoning a]) (.reasoning b) = entries ++ [.reasoning (jsConcat a b)] := by
  simp [append]

theorem jsConcat_join (texts texts' : List String) :
    jsConcat (some (.str (String.join texts))) (some (.str (String.join texts'))) =
      some (.str (String.join (texts ++ texts'))) := by
  rw [String.join_append]
  rfl

/-- An entry that does not join the last is one of its own. -/
theorem append_new {entries : List Entry} {last : Entry} (h : last.joins entry = false) :
    append (entries ++ [last]) entry = entries ++ [last] ++ [entry] := by
  unfold append
  rw [List.getLast?_concat]
  split
  · rename_i heq
    cases heq
    cases h
  · rename_i heq
    cases heq
    cases h
  · rfl

variable {run : List Produced}

/-- The entry of a run is of its items' kind. -/
theorem RunShown.kind (h : RunShown jobId run entry) (hp : p ∈ run) (hone : p.CarriesOne) :
    entry.isText = p.text.isSome ∧ entry.isReasoning = p.reasoning.isSome := by
  have hcarries {f : Produced → Option String} {texts : List String} (h : run.map f = texts.map some) :
      ∃ text, f p = some text := by
    have hm : f p ∈ texts.map some := h ▸ List.mem_map_of_mem hp
    obtain ⟨text, -, he⟩ := List.mem_map.mp hm
    exact ⟨text, he.symm⟩
  cases h with
  | text h =>
    obtain ⟨text, ht⟩ := hcarries h
    have hr : p.reasoning = none := hone.resolve_left (ht ▸ Option.some_ne_none text)
    rw [ht, hr]
    exact ⟨rfl, rfl⟩
  | reasoning h =>
    obtain ⟨text, hr⟩ := hcarries h
    have ht : p.text = none := hone.resolve_right (hr ▸ Option.some_ne_none text)
    rw [ht, hr]
    exact ⟨rfl, rfl⟩
  | other ht hr hs =>
    cases List.mem_singleton.mp hp
    rw [ht, hr]
    exact shows_other ht hr hs

/-- What is displayed alone. -/
theorem runShown_single (hone : p.CarriesOne) (hd : p.displayed jobId) :
    ∃ entry, shows jobId true p.item = some entry ∧ RunShown jobId [p] entry := by
  obtain ⟨entry, hs⟩ := Option.isSome_iff_exists.mp hd
  refine ⟨entry, hs, ?_⟩
  cases ht : p.text with
  | some text =>
    have hr : p.reasoning = none := hone.resolve_left (ht ▸ Option.some_ne_none text)
    obtain ⟨text', hf, rfl⟩ := Option.map_eq_some_iff.mp ((shows_text ht hr).symm.trans hs)
    cases (Option.filter_eq_some_iff.mp hf).1
    have hjoin : text = String.join [text] := by simp
    rw [hjoin]
    exact .text (congrArg (fun t => [t]) (hjoin ▸ ht))
  | none =>
    cases hr : p.reasoning with
    | some text =>
      obtain ⟨text', hf, rfl⟩ := Option.map_eq_some_iff.mp ((shows_reasoning ht hr).symm.trans hs)
      cases (Option.filter_eq_some_iff.mp hf).1
      have hjoin : text = String.join [text] := by simp
      rw [hjoin]
      exact .reasoning (congrArg (fun t => [t]) (hjoin ▸ hr))
    | none => exact .other ht hr hs

/-- Runs of one kind make one run, and the entry is of both. -/
theorem RunShown.append {run' : List Produced} {entry' : Entry} (h : RunShown jobId run entry)
    (h' : RunShown jobId run' entry') (hj : entry.joins entry' = true) (entries : List Entry) :
    ∃ merged, ControlPlane.append (entries ++ [entry]) entry' = entries ++ [merged] ∧
      RunShown jobId (run ++ run') merged := by
  cases h with
  | @text _ texts h =>
    cases h' with
    | @text _ texts' h' =>
      refine ⟨_, append_text entries _ _, ?_⟩
      rw [jsConcat_join]
      exact .text (by rw [List.map_append, List.map_append, h, h'])
    | reasoning h' => cases hj
    | other ht hr hs =>
      rw [Entry.joins, (shows_other ht hr hs).1] at hj
      cases hj
  | @reasoning _ texts h =>
    cases h' with
    | text h' => cases hj
    | @reasoning _ texts' h' =>
      refine ⟨_, append_reasoning entries _ _, ?_⟩
      rw [jsConcat_join]
      exact .reasoning (by rw [List.map_append, List.map_append, h, h'])
    | other ht hr hs =>
      rw [Entry.joins, (shows_other ht hr hs).2] at hj
      cases hj
  | other ht hr hs =>
    rw [Entry.joins, (shows_other ht hr hs).1, (shows_other ht hr hs).2] at hj
    cases hj

/-- One more item on a transcript whose last entry is a run's. -/
theorem onItem_run {g : List Produced} {q : Produced} {last : Entry} (entries : List Entry)
    (hlast : RunShown jobId (g ++ [q]) last) (hq : q.CarriesOne) (hp : p.CarriesOne) (hd : p.displayed jobId) :
    if q.joins p then ∃ merged, onItem jobId true (entries ++ [last]) p.item = entries ++ [merged] ∧
      RunShown jobId (g ++ [q] ++ [p]) merged
    else ∃ entry, onItem jobId true (entries ++ [last]) p.item = entries ++ [last] ++ [entry] ∧
      RunShown jobId [p] entry := by
  obtain ⟨entry, hs, hsingle⟩ := runShown_single hp hd
  have hitem : onItem jobId true (entries ++ [last]) p.item = append (entries ++ [last]) entry := by rw [onItem, hs]
  have hjoins : last.joins entry = q.joins p := by
    obtain ⟨htext, hreasoning⟩ := hlast.kind (List.mem_append_right g List.mem_cons_self) hq
    obtain ⟨htext', hreasoning'⟩ := hsingle.kind List.mem_cons_self hp
    rw [Entry.joins, htext, htext', hreasoning, hreasoning']
    rfl
  rw [hitem, ← hjoins]
  cases hj : last.joins entry with
  | true => exact hlast.append hsingle hj entries
  | false => exact ⟨entry, append_new hj, hsingle⟩

theorem onItem_displayed (log : List Produced) (entries : List Entry) :
    (log.map Produced.item).foldl (onItem jobId true) entries =
      (log.filter fun p => p.displayed jobId).foldl (fun entries p => onItem jobId true entries p.item) entries := by
  induction log generalizing entries with
  | nil => rfl
  | cons p log ih =>
    rw [List.map_cons, List.foldl_cons, ih, List.filter_cons]
    cases hs : shows jobId true p.item with
    | some entry => simp [Produced.displayed, hs]
    | none => simp [Produced.displayed, hs, onItem]

/-- What is displayed of a log has an entry for every run. -/
theorem transcript_forall₂ {log : List Produced} (hone : ∀ p ∈ log, p.CarriesOne) :
    List.Forall₂ (RunShown jobId) (runs jobId log) (transcript jobId true (log.map Produced.item)) := by
  rw [transcript, onItem_displayed]
  refine List.forall₂_splitBy (P := fun p : Produced => p.CarriesOne ∧ p.displayed jobId) ?_ ?_ ?_
  · rintro p ⟨hp, hd⟩
    obtain ⟨entry, hs, hsingle⟩ := runShown_single hp hd
    exact ⟨entry, by rw [onItem, hs]; rfl, hsingle⟩
  · rintro entries last g q p hlast ⟨hq, -⟩ ⟨hp, hd⟩
    exact onItem_run entries hlast hq hp hd
  · intro p hp
    obtain ⟨hm, hd⟩ := List.mem_filter.mp hp
    exact ⟨hone p hm, hd⟩

/-- What joins the last entry is merged into it, and it stays of its kind. -/
theorem append_join {last : Entry} (hj : last.joins entry = true) (entries : List Entry) :
    ∃ merged, append (entries ++ [last]) entry = entries ++ [merged] ∧
      ∀ before : Entry, before.joins merged = before.joins last := by
  cases last with
  | text a =>
    cases entry with
    | text b => exact ⟨_, append_text entries a b, fun _ => rfl⟩
    | reasoning b => cases hj
    | tool b => cases hj
    | guardrail tool blocked reason => cases hj
    | «recall» notes => cases hj
    | note b => cases hj
  | reasoning a =>
    cases entry with
    | reasoning b => exact ⟨_, append_reasoning entries a b, fun _ => rfl⟩
    | text b => cases hj
    | tool b => cases hj
    | guardrail tool blocked reason => cases hj
    | «recall» notes => cases hj
    | note b => cases hj
  | tool a => cases hj
  | guardrail tool blocked reason => cases hj
  | «recall» notes => cases hj
  | note a => cases hj

/-- No append leaves two neighbours of a kind that merges. -/
theorem append_isChain {entries : List Entry} (h : entries.IsChain fun a b => a.joins b = false) (entry : Entry) :
    (append entries entry).IsChain fun a b => a.joins b = false := by
  obtain rfl | ⟨entries, last, rfl⟩ := entries.eq_nil_or_concat
  · exact List.isChain_singleton entry
  · rw [List.concat_eq_append] at h ⊢
    obtain ⟨hchain, -, hlast⟩ := List.isChain_append.mp h
    cases hj : last.joins entry with
    | false =>
      rw [append_new hj]
      refine List.isChain_append.mpr ⟨h, List.isChain_singleton entry, ?_⟩
      simp [hj]
    | true =>
      obtain ⟨merged, hm, hsame⟩ := append_join hj entries
      rw [hm]
      refine List.isChain_append.mpr ⟨hchain, List.isChain_singleton merged, ?_⟩
      intro before hbefore after hafter
      cases hafter
      exact (hsame before).trans (hlast before hbefore last rfl)

theorem foldl_isChain (items : List StreamItem) {entries : List Entry} (h : entries.IsChain fun a b => a.joins b = false) :
    (items.foldl (onItem jobId true) entries).IsChain fun a b => a.joins b = false := by
  induction items generalizing entries with
  | nil => exact h
  | cons item items ih =>
    refine ih ?_
    unfold onItem
    split
    · exact append_isChain h _
    · exact h

/-- What is not displayed has no text to lose. -/
theorem displayed_of_text (hone : p.CarriesOne) (hd : p.displayed jobId = false) :
    p.text.getD "" = "" ∧ p.reasoning.getD "" = "" := by
  have hnone : shows jobId true p.item = none := by simpa [Produced.displayed] using hd
  cases ht : p.text with
  | some text =>
    have hr : p.reasoning = none := hone.resolve_left (ht ▸ Option.some_ne_none text)
    have hempty := (shows_text ht hr).symm.trans hnone
    rw [hr]
    simpa using hempty
  | none =>
    cases hr : p.reasoning with
    | some text =>
      have hempty := (shows_reasoning ht hr).symm.trans hnone
      simpa using hempty
    | none => exact ⟨rfl, rfl⟩

end

/-- **Streaming.** Of every stream whose deltas carry one thing each, however
the job's events stand among them, the transcript has one entry for every
maximal run of displayed deltas, of all their text, in the stream's order; no
two neighbours are both text or both reasoning; and a delta that is not
displayed has no text. -/
theorem transcript_runs (jobId : String) (log : List Produced) (hone : ∀ p ∈ log, p.CarriesOne) :
    List.Forall₂ (RunShown jobId) (runs jobId log) (transcript jobId true (log.map Produced.item)) ∧
    (transcript jobId true (log.map Produced.item)).IsChain (fun a b => a.joins b = false) ∧
    ∀ p ∈ log, p.displayed jobId = false → p.text.getD "" = "" ∧ p.reasoning.getD "" = "" :=
  ⟨transcript_forall₂ hone, foldl_isChain _ .nil, fun p hp => displayed_of_text (hone p hp)⟩

/-! ## A turn -/

def textDelta (text : String) : Produced :=
  .modelStream { contentBlockDelta := some { delta := some { text := some text } } }

def reasoningDelta (text : String) : Produced :=
  .modelStream { contentBlockDelta := some { delta := some { reasoningContent := some { text := some text } } } }

def toolInputDelta : Produced := .modelStream { contentBlockDelta := some { delta := some {} } }

def toolStart (name : String) : Produced :=
  .modelStream { contentBlockStart := some { start := some { toolUse := some { name := some name } } } }

/-- Text goes on over an empty delta and a tool's input, and stops at a verdict. -/
def turn : List Produced :=
  [.jobStarted hostedJob, reasoningDelta "Two ", textDelta "", reasoningDelta "disputes.", textDelta "Look", toolInputDelta,
    textDelta "ing.", toolStart "lookup", textDelta "Submit.", .guardrail "submit_dispute_response" { blocked := false },
    textDelta "Done."]

theorem transcript_runs_turn :
    (∀ p ∈ turn, p.CarriesOne) ∧
    List.Forall₂ (RunShown "session-1") (runs "session-1" turn) (transcript "session-1" true (turn.map Produced.item)) := by
  have hone : ∀ p ∈ turn, p.CarriesOne := by
    simp [turn, Produced.CarriesOne, Produced.text, Produced.reasoning, textDelta, reasoningDelta, toolInputDelta,
      toolStart]
  exact ⟨hone, (transcript_runs "session-1" turn hone).1⟩

end ControlPlane
