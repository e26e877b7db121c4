import ControlPlane.Lib.Machine
import ControlPlane.Ui.SessionTerminal

/-!
# Reconnects

A terminal on a running job's stream (`Terminal.step`): the job adds items to
its log, a connection delivers the log from its oldest item, is dropped, and is
made again by the browser; the transcript outlives them all, until
`job_finished` closes the source.

`transcript_once_iff`: a terminal that has been delivered the whole log shows
what one subscription without interruption shows, exactly if no connection
was dropped that had shown anything. As in the terminal, `SHOW_TOKEN_STREAM` and
`onLiveChange` are taken as given.
-/

namespace ControlPlane

open Machine

/-! ## Transcripts -/

section

variable (jobId : String) (showTokenStream : Bool)

/-- The entry that an item of the stream appends, if it does. -/
def shows (item : StreamItem) : Option Entry := sseEvent jobId item >>= received showTokenStream

def onItem (entries : List Entry) (item : StreamItem) : List Entry :=
  match shows jobId showTokenStream item with
  | some entry => append entries entry
  | none => entries

/-- What a single subscription without interruption shows of a log. -/
def transcript (log : List StreamItem) : List Entry := log.foldl (onItem jobId showTokenStream) []

/-- The listener of `job_finished` closes the source. -/
def finishes (item : StreamItem) : Bool :=
  (sseEvent jobId item).any fun sse => sse.event = "job_finished" && isJsonDict sse.data

/-! ## A terminal on a stream -/

structure Terminal where
  log : List StreamItem := []
  /-- How much of the log the connection has delivered, while there is one. -/
  position : Option ℕ := none
  entries : List Entry := []
  closed : Bool := false

inductive StreamAction
  | publish (item : StreamItem)
  /-- `subscribe`, without an offset. -/
  | connect
  | deliver
  | drop

namespace Terminal

def step (s : Terminal) : StreamAction → Option Terminal
  | .publish item => some { s with log := s.log ++ [item] }
  | .connect =>
    match s.closed, s.position with
    | false, none => some { s with position := some 0 }
    | _, _ => none
  | .deliver =>
    match s.closed, s.position with
    | false, some n => s.log[n]?.map fun item => { s with
        position := some (n + 1)
        entries := onItem jobId showTokenStream s.entries item
        closed := finishes jobId item }
    | _, _ => none
  | .drop =>
    match s.closed, s.position with
    | false, some _ => some { s with position := none }
    | _, _ => none

/-- What the connection has delivered. -/
def delivered (s : Terminal) : List StreamItem := s.log.take (s.position.getD 0)

/-- The connection has shown nothing. -/
def Fresh (s : Terminal) : Prop := s.delivered.filterMap (shows jobId showTokenStream) = []

end Terminal

end

/-! ## How much a transcript shows -/

/-- A text counts by its characters, whatever runs it is in. -/
def Entry.size : Entry → ℕ
  | text v => (jsPropString v).length
  | reasoning v => (jsPropString v).length
  | _ => 1

def transcriptSize (entries : List Entry) : ℕ := (entries.map Entry.size).sum

theorem transcriptSize_append (entries : List Entry) (entry : Entry) :
    transcriptSize (append entries entry) = transcriptSize entries + entry.size := by
  have hconcat (a b : Option Value) : (jsPropString (jsConcat a b)).length =
      (jsPropString a).length + (jsPropString b).length := String.length_append _ _
  unfold append
  split
  · rename_i last text hlast
    obtain ⟨rest, rfl⟩ := List.getLast?_eq_some_iff.mp hlast
    simp [transcriptSize, Entry.size, hconcat, Nat.add_assoc]
  · rename_i last text hlast
    obtain ⟨rest, rfl⟩ := List.getLast?_eq_some_iff.mp hlast
    simp [transcriptSize, Entry.size, hconcat, Nat.add_assoc]
  · simp [transcriptSize]

section

variable {jobId : String} {showTokenStream : Bool}

theorem transcriptSize_foldl (items : List StreamItem) (entries : List Entry) :
    transcriptSize (items.foldl (onItem jobId showTokenStream) entries) =
      transcriptSize entries + transcriptSize (items.filterMap (shows jobId showTokenStream)) := by
  induction items generalizing entries with
  | nil => rfl
  | cons item items ih =>
    rw [List.foldl_cons, ih, onItem, List.filterMap_cons]
    cases shows jobId showTokenStream item with
    | none => rfl
    | some entry =>
      simp only [transcriptSize_append]
      simp [transcriptSize, Nat.add_assoc]

/-- Items that show nothing leave a transcript as it is. -/
theorem foldl_shows_nothing {items : List StreamItem} (h : items.filterMap (shows jobId showTokenStream) = [])
    (entries : List Entry) : items.foldl (onItem jobId showTokenStream) entries = entries := by
  induction items generalizing entries with
  | nil => rfl
  | cons item items ih =>
    rw [List.filterMap_cons] at h
    cases hs : shows jobId showTokenStream item with
    | none =>
      rw [hs] at h
      rw [List.foldl_cons, onItem, hs]
      exact ih h entries
    | some entry =>
      rw [hs] at h
      cases h

/-- Every listener appends something, of an event whose text, if it has one,
is not empty. -/
theorem handler_size {name : String} {handler : Attrs → Entry} {data : Attrs}
    (htext : 0 < (jsPropString (data.lookup "text")).length)
    (hl : (handlers showTokenStream).lookup name = some handler) : 0 < (handler data).size := by
  obtain ⟨before, after, hsplit, -⟩ := List.lookup_eq_some_iff.mp hl
  have hm : (name, handler) ∈ handlers true := by
    have hm : (name, handler) ∈ handlers showTokenStream := by
      rw [hsplit]
      exact List.mem_append_right _ List.mem_cons_self
    cases showTokenStream with
    | true => exact hm
    | false => exact List.mem_append_right _ hm
  simp only [handlers, if_true, List.mem_append, List.mem_cons, List.not_mem_nil, or_false, Prod.mk.injEq] at hm
  rcases hm with (⟨-, rfl⟩ | ⟨-, rfl⟩) | ⟨-, rfl⟩ | ⟨-, rfl⟩ | ⟨-, rfl⟩ | ⟨-, rfl⟩ | ⟨-, rfl⟩ | ⟨-, rfl⟩ | ⟨-, rfl⟩
  · exact htext
  · exact htext
  all_goals exact Nat.one_pos

/-- No entry is empty: tokens and reasoning have a text. -/
theorem size_pos {item : StreamItem} {entry : Entry} (h : shows jobId showTokenStream item = some entry) :
    0 < entry.size := by
  obtain ⟨sse, hs, hr⟩ := Option.bind_eq_some_iff.mp h
  obtain ⟨handler, hl, hd⟩ := Option.bind_eq_some_iff.mp hr
  obtain ⟨data, hdata, he⟩ := Option.bind_eq_some_iff.mp hd
  cases he
  have hparse : data = sse.data := by
    unfold jsonParse at hdata
    split at hdata
    · cases hdata
      rfl
    · cases hdata
  subst hparse
  refine handler_size ?_ hl
  have hundefined : 0 < (jsPropString none).length := by decide
  rcases item with event | event
  · cases hs
    exact hundefined
  · obtain ⟨translated, ht, rfl⟩ := Option.map_eq_some_iff.mp hs
    have hlength {text : Option String} {s : String} (h : text.filter (· ≠ "") = some s) : 0 < s.length := by
      obtain ⟨-, hs⟩ := Option.filter_eq_some_iff.mp h
      exact Nat.pos_of_ne_zero fun he => of_decide_eq_true hs (String.length_eq_zero_iff.mp he)
    unfold translateStreamEvent at ht
    split at ht
    · split at ht
      · rename_i text htext
        cases ht
        exact hlength htext
      · obtain ⟨text, htext, rfl⟩ := Option.map_eq_some_iff.mp ht
        exact hlength htext
    · obtain ⟨toolUse, -, rfl⟩ := Option.map_eq_some_iff.mp ht
      exact hundefined

theorem transcriptSize_eq_zero {items : List StreamItem}
    (h : transcriptSize (items.filterMap (shows jobId showTokenStream)) = 0) :
    items.filterMap (shows jobId showTokenStream) = [] := by
  rw [List.filterMap_eq_nil_iff]
  intro item hi
  by_contra hne
  obtain ⟨entry, hs⟩ := Option.ne_none_iff_exists'.mp hne
  have hm : entry ∈ items.filterMap (shows jobId showTokenStream) := List.mem_filterMap.mpr ⟨item, hi, hs⟩
  have hzero := List.sum_eq_zero_iff.mp h entry.size (List.mem_map.mpr ⟨entry, hm, rfl⟩)
  have hpos := size_pos hs
  omega

/-! ## What reconnects repeat -/

/-- A step of a terminal. -/
inductive TerminalSteps (jobId : String) (showTokenStream : Bool) (s : Terminal) : StreamAction → Terminal → Prop
  | publish (item : StreamItem) :
    TerminalSteps jobId showTokenStream s (.publish item) { s with log := s.log ++ [item] }
  | connect (hp : s.position = none) : TerminalSteps jobId showTokenStream s .connect { s with position := some 0 }
  | deliver {n : ℕ} {item : StreamItem} (hp : s.position = some n) (hi : s.log[n]? = some item) :
    TerminalSteps jobId showTokenStream s .deliver { s with
      position := some (n + 1)
      entries := onItem jobId showTokenStream s.entries item
      closed := finishes jobId item }
  | drop {n : ℕ} (hp : s.position = some n) : TerminalSteps jobId showTokenStream s .drop { s with position := none }

theorem terminal_steps {s s' : Terminal} {a : StreamAction} (hs : s.step jobId showTokenStream a = some s') :
    TerminalSteps jobId showTokenStream s a s' := by
  cases a with
  | publish item =>
    cases hs
    exact .publish item
  | connect =>
    simp only [Terminal.step] at hs
    split at hs
    · rename_i hp
      cases hs
      exact .connect hp
    · cases hs
  | deliver =>
    simp only [Terminal.step] at hs
    split at hs
    · rename_i n hc hp
      obtain ⟨item, hi, rfl⟩ := Option.map_eq_some_iff.mp hs
      exact .deliver hp hi
    · cases hs
  | drop =>
    simp only [Terminal.step] at hs
    split at hs
    · rename_i n hc hp
      cases hs
      exact .drop hp
    · cases hs

/-- Every drop was of a connection that had shown nothing. -/
def DropsFresh (jobId : String) (showTokenStream : Bool) : List StreamAction → Prop :=
  Along (Terminal.step jobId showTokenStream) (fun _ s a => a = .drop → s.Fresh jobId showTokenStream) {}

/-- The transcript is of what connections that were dropped had delivered, and
then of what this one has. -/
structure Repeats (jobId : String) (showTokenStream : Bool) (history : List StreamAction) (s : Terminal)
    (past : List StreamItem) : Prop where
  entries : s.entries = (past ++ s.delivered).foldl (onItem jobId showTokenStream) []
  position : ∀ n, s.position = some n → n ≤ s.log.length
  fresh : past.filterMap (shows jobId showTokenStream) = [] ↔ DropsFresh jobId showTokenStream history

theorem repeats_step {history : List StreamAction} {s s' : Terminal} {a : StreamAction} {past : List StreamItem}
    (h : Repeats jobId showTokenStream history s past)
    (hr : run (Terminal.step jobId showTokenStream) {} history = some s)
    (hs : TerminalSteps jobId showTokenStream s a s') :
    ∃ past', Repeats jobId showTokenStream (history ++ [a]) s' past' := by
  have hsame (ha : a ≠ .drop) :
      DropsFresh jobId showTokenStream (history ++ [a]) ↔ DropsFresh jobId showTokenStream history :=
    (along_snoc hr).trans (and_iff_left fun e => absurd e ha)
  cases hs with
  | publish item =>
    refine ⟨past, ?_, fun n hn => ?_, h.fresh.trans (hsame nofun).symm⟩
    · have hdelivered : Terminal.delivered { s with log := s.log ++ [item] } = s.delivered := by
        unfold Terminal.delivered
        refine List.take_append_of_le_length ?_
        cases hp : s.position with
        | none => exact Nat.zero_le _
        | some n => exact h.position n hp
      rw [hdelivered]
      exact h.entries
    · have hle := h.position n hn
      simp only [List.length_append, List.length_singleton]
      omega
  | connect hp =>
    refine ⟨past, ?_, fun n hn => ?_, h.fresh.trans (hsame nofun).symm⟩
    · have hdelivered : s.delivered = [] := by simp [Terminal.delivered, hp]
      rw [h.entries, hdelivered]
      rfl
    · cases hn
      exact Nat.zero_le _
  | @deliver n item hp hi =>
    refine ⟨past, ?_, fun m hm => ?_, h.fresh.trans (hsame nofun).symm⟩
    · have hdelivered : s.log.take (n + 1) = s.delivered ++ [item] := by
        simp [Terminal.delivered, hp, List.take_add_one, hi]
      show onItem jobId showTokenStream s.entries item = (past ++ s.log.take (n + 1)).foldl _ []
      rw [h.entries, hdelivered, ← List.append_assoc]
      generalize past ++ s.delivered = items
      rw [List.foldl_append]
      rfl
    · cases hm
      obtain ⟨hlt, -⟩ := List.getElem?_eq_some_iff.mp hi
      exact hlt
  | @drop n hp =>
    refine ⟨past ++ s.delivered, ?_, nofun, ?_⟩
    · rw [h.entries]
      simp [Terminal.delivered]
    · rw [List.filterMap_append, List.append_eq_nil_iff, h.fresh]
      refine (and_congr_right fun _ => ?_).trans (along_snoc hr).symm
      exact ⟨fun hf _ => hf, fun hf => hf rfl⟩

/-- **Exactly once.** A terminal that has been delivered the whole log, over
however many connections, shows what one subscription without interruption
does, exactly if no connection was dropped that had shown anything. -/
theorem transcript_once_iff (jobId : String) (showTokenStream : Bool) (history : List StreamAction) (s : Terminal)
    (hr : run (Terminal.step jobId showTokenStream) {} history = some s) (hend : s.position = some s.log.length) :
    s.entries = transcript jobId showTokenStream s.log ↔ DropsFresh jobId showTokenStream history := by
  obtain ⟨-, past, h⟩ := run_keeps
    (I := fun history s => run (Terminal.step jobId showTokenStream) {} history = some s ∧
      ∃ past, Repeats jobId showTokenStream history s past)
    ⟨rfl, [], rfl, nofun, iff_of_true rfl (along_nil _ _)⟩
    (fun history s a s' ⟨hr, past, h⟩ hs => ⟨run_snoc.mpr ⟨s, hr, hs⟩, repeats_step h hr (terminal_steps hs)⟩) hr
  have hdelivered : s.delivered = s.log := by simp [Terminal.delivered, hend]
  have hentries := h.entries
  rw [hdelivered, List.foldl_append] at hentries
  rw [← h.fresh, hentries, transcript]
  constructor
  · intro he
    have hsize := congrArg transcriptSize he
    rw [transcriptSize_foldl, transcriptSize_foldl, transcriptSize_foldl] at hsize
    refine transcriptSize_eq_zero ?_
    simp only [transcriptSize, List.map_nil, List.sum_nil] at hsize ⊢
    omega
  · intro hnothing
    rw [foldl_shows_nothing hnothing]

end

/-! ## A drop -/

def startedItem : StreamItem := .jobEvents (.jobStarted hostedJob)

def finishedItem : StreamItem := .jobEvents (.jobFinished "end_turn")

/-- A stream that begins so, with the rest delivered to another connection. -/
def resumed (beginning : List StreamAction) : List StreamAction :=
  [.publish startedItem, .connect] ++ beginning ++
    [.drop, .connect, .deliver, .publish finishedItem, .deliver]

theorem transcript_once_early :
    ∃ s, run (Terminal.step "session-1" false) {} (resumed []) = some s ∧ s.closed = true ∧
      s.entries = transcript "session-1" false s.log := by
  refine ⟨_, rfl, rfl, (transcript_once_iff "session-1" false (resumed []) _ rfl rfl).mpr ?_⟩
  refine along_cons nofun fun s hs => ?_
  cases hs
  refine along_cons nofun fun s hs => ?_
  cases hs
  refine along_cons (fun _ => rfl) fun s hs => ?_
  cases hs
  refine along_cons nofun fun s hs => ?_
  cases hs
  refine along_cons nofun fun s hs => ?_
  cases hs
  refine along_cons nofun fun s hs => ?_
  cases hs
  exact along_cons nofun fun s hs => along_nil _ s

/-- A connection that is dropped after the first event shows it again. -/
theorem transcript_repeats :
    ∃ s, run (Terminal.step "session-1" false) {} (resumed [.deliver]) = some s ∧ s.closed = true ∧
      s.position = some s.log.length ∧ s.entries ≠ transcript "session-1" false s.log := by
  refine ⟨_, rfl, rfl, rfl, fun h => ?_⟩
  exact absurd (congrArg List.length h) (by decide)

end ControlPlane
