import Mathlib.Data.List.DropRight
import ControlPlane.Lib.Json
import ControlPlane.Python

/-!
# Answers of a hosted agent

`_extract` of `app/activities/hosted.py`: the answer in what the runtime
returned, a JSON body or a server-sent event. An event is cut into its lines
with `str.splitlines`, which breaks a text at more characters than JSON
escapes: U+0085, U+2028 and U+2029 may stand in a string as they are.

* `extract_plain`: a JSON body's answer is the one that was sent.
* `extract_iff`: so is an event's, exactly where none of the three stands in
  its JSON.
-/

namespace ControlPlane

open Json (Text points loads opening Blank WritesAll WritesMember isBlank)

/-! ## Strings -/

/-- `str.isspace`, of a character. -/
def isSpaceCode (c : ℕ) : Bool :=
  decide ((0x09 ≤ c ∧ c ≤ 0x0D) ∨ (0x1C ≤ c ∧ c ≤ 0x20) ∨ c = 0x85 ∨ c = 0xA0 ∨ c = 0x1680 ∨
    (0x2000 ≤ c ∧ c ≤ 0x200A) ∨ c = 0x2028 ∨ c = 0x2029 ∨ c = 0x202F ∨ c = 0x205F ∨ c = 0x3000)

/-- `str.strip`. -/
def strip (text : Text) : Text := (text.dropWhile isSpaceCode).rdropWhile isSpaceCode

/-- The characters that end a line. -/
def isLineBreak (c : ℕ) : Bool :=
  decide ((0x0A ≤ c ∧ c ≤ 0x0D) ∨ (0x1C ≤ c ∧ c ≤ 0x1E) ∨ c = 0x85 ∨ c = 0x2028 ∨ c = 0x2029)

/-- The lines of a text, after a carriage return or not. -/
def linesFrom : Bool → Text → List Text
  | _, [] => []
  | afterReturn, c :: rest =>
    if afterReturn && c == 0x0A then linesFrom false rest
    else if isLineBreak c then [] :: linesFrom (c == 0x0D) rest
    else
      match linesFrom false rest with
      | [] => [[c]]
      | line :: lines => (c :: line) :: lines

/-- `str.splitlines`. -/
def splitlines (text : Text) : List Text := linesFrom false text

/-! ## The answer -/

def dataPrefix : Text := points "data: "

/-- The data of an event's lines. -/
def dataLines (text : Text) : List Text :=
  ((splitlines text).filter fun line => dataPrefix.isPrefixOf line).map fun line => line.drop dataPrefix.length

/-- The data of an event in one text, or the event as it is. -/
def eventText (text : Text) : Text :=
  let joined := strip ([0x0A].intercalate (dataLines text))
  if joined = [] then text else joined

/-- The keys an answer may stand under. -/
def answerKeys : List String := ["response", "result", "output", "completion"]

/-- `parsed.get(key)`: of members with one name the last. -/
def member (members : List (Text × Json.Value)) (key : String) : Option Json.Value :=
  (members.reverse.find? fun m => m.1 = points key).map Prod.snd

/-- The first of the keys that has a string that is not empty. -/
def answerIn (members : List (Text × Json.Value)) : Option Text :=
  answerKeys.findSome? fun key =>
    match member members key with
    | some (.str value) => if value = [] then none else some value
    | some _ => none
    | none => none

/-- `"text/event-stream" in content_type`. -/
def isEventStream (contentType : String) : Bool :=
  decide ("text/event-stream".toList <:+: contentType.toList)

/-- The answer in a text, or else the text. -/
def answerOf (text : Text) : Except Raised Text :=
  match loads text with
  | .error .malformed => .ok text
  | .error (.digits count) =>
    .error (.valueError ("Exceeds the limit (4300 digits) for integer string conversion: value has " ++ count.repr ++
      " digits; use sys.set_int_max_str_digits() to increase the limit"))
  | .error .depth => .error (.valueError "maximum recursion depth exceeded")
  | .ok (.object members) => .ok ((answerIn members).getD text)
  | .ok _ => .ok text

/-- `_extract`. -/
def extract (body : List UInt8) (contentType : String) : Except Raised Text :=
  let text := strip (Utf8.decode body)
  answerOf (if isEventStream contentType then eventText text else text)

/-! ## Stripping and splitting -/

section

variable {a b t w : Text} {c : ℕ}

/-- Dropping spaces at the end stops at a character that is none. -/
theorem rdropWhile_append_cons (hc : isSpaceCode c = false) (t w : Text) :
    (t ++ c :: w).rdropWhile isSpaceCode = t ++ c :: w.rdropWhile isSpaceCode := by
  induction w using List.reverseRecOn with
  | nil => rw [List.rdropWhile_nil, List.rdropWhile_concat_neg _ _ _ (by rw [hc]; exact Bool.false_ne_true)]
  | append_singleton w x ih =>
    by_cases hx : isSpaceCode x = true
    · rw [← List.cons_append, ← List.append_assoc, List.rdropWhile_concat_pos _ _ _ hx, ih,
        List.rdropWhile_concat_pos _ _ _ hx]
    · rw [← List.cons_append, ← List.append_assoc, List.rdropWhile_concat_neg _ _ _ hx,
        List.rdropWhile_concat_neg _ _ _ hx, List.append_assoc, List.cons_append]

/-- What is between spaces, from a character that is none. -/
theorem strip_append_cons (ha : ∀ c ∈ a, isSpaceCode c = true) (hc : isSpaceCode c = false) (t : Text) :
    strip (a ++ c :: t) = c :: t.rdropWhile isSpaceCode := by
  rw [strip, List.dropWhile_append_of_pos ha, List.dropWhile_cons_of_neg (by rw [hc]; exact Bool.false_ne_true)]
  exact rdropWhile_append_cons hc [] t

/-- A text without a line break is one line. -/
theorem splitlines_unbroken (hne : t ≠ []) (ht : ∀ c ∈ t, isLineBreak c = false) : splitlines t = [t] := by
  unfold splitlines
  induction t with
  | nil => exact absurd rfl hne
  | cons c t ih =>
    have hc := ht c List.mem_cons_self
    rw [linesFrom, Bool.false_and, if_neg Bool.false_ne_true, if_neg (by rw [hc]; exact Bool.false_ne_true)]
    cases t with
    | nil => rfl
    | cons d t => rw [ih (List.cons_ne_nil d t) fun x hx => ht x (List.mem_cons_of_mem c hx)]

/-- The first line ends at the first line break. -/
theorem splitlines_broken (ha : ∀ x ∈ a, isLineBreak x = false) (hc : isLineBreak c = true) (t : Text) :
    ∃ lines, splitlines (a ++ c :: t) = a :: lines := by
  unfold splitlines
  induction a with
  | nil => exact ⟨linesFrom (c == 0x0D) t, by rw [List.nil_append, linesFrom, Bool.false_and, if_neg Bool.false_ne_true, if_pos hc]⟩
  | cons x a ih =>
    have hx := ha x List.mem_cons_self
    obtain ⟨lines, hl⟩ := ih fun y hy => ha y (List.mem_cons_of_mem x hy)
    refine ⟨lines, ?_⟩
    rw [List.cons_append, linesFrom, Bool.false_and, if_neg Bool.false_ne_true,
      if_neg (by rw [hx]; exact Bool.false_ne_true), hl]

theorem linesFrom_unbroken (afterReturn : Bool) (t : Text) :
    ∀ line ∈ linesFrom afterReturn t, ∀ c ∈ line, isLineBreak c = false := by
  induction t generalizing afterReturn with
  | nil => exact fun _ h => by cases h
  | cons c t ih =>
    rw [linesFrom]
    split_ifs with h1 h2
    · exact ih false
    · exact List.forall_mem_cons.mpr ⟨fun _ h => (by cases h), ih _⟩
    · have hc : isLineBreak c = false := Bool.eq_false_iff.mpr h2
      have ih := ih false
      split
      · intro line hl x hx
        rw [List.mem_singleton.mp hl] at hx
        rw [List.mem_singleton.mp hx]
        exact hc
      · rename_i line lines hl
        rw [hl] at ih
        obtain ⟨hline, hlines⟩ := List.forall_mem_cons.mp ih
        exact List.forall_mem_cons.mpr ⟨List.forall_mem_cons.mpr ⟨hc, hline⟩, hlines⟩

end

/-! ## What is sent -/

theorem isSpaceCode_of_isBlank {c : ℕ} (h : isBlank c = true) : isSpaceCode c = true := by
  simp only [isBlank, Bool.or_eq_true, beq_iff_eq] at h
  simp only [isSpaceCode, decide_eq_true_eq]
  omega

theorem isLineBreak_ascii {c : ℕ} (h1 : 0x20 ≤ c) (h2 : c < 0x80) : isLineBreak c = false := by
  simp only [isLineBreak, decide_eq_false_iff_not]
  omega

theorem scalar_of_mem_points {s : String} {c : ℕ} (h : c ∈ points s) : Utf8.Scalar c := by
  obtain ⟨ch, -, rfl⟩ := List.mem_map.mp h
  exact ch.valid.imp id fun h => ⟨Nat.succ_le_of_lt h.1, h.2⟩

section

variable {b₀ b₁ b₂ b₃ b₄ b₅ key text : Text} {answer : String}

/-- An object of one string member, closed. -/
def closed (b₁ key b₂ b₃ text b₄ : Text) : Text := opening b₁ key b₂ b₃ ++ (text ++ 0x22 :: (b₄ ++ [0x7D]))

theorem answerOf_closed (h₁ : Blank b₁) (h₂ : Blank b₂) (h₃ : Blank b₃) (h₄ : Blank b₄)
    (hk : WritesAll (points "response") key) (hv : WritesAll (points answer) text) (hne : answer ≠ "") :
    answerOf (closed b₁ key b₂ b₃ text b₄) = .ok (points answer) := by
  have hpoints : points answer ≠ [] := by
    intro h
    exact hne (String.toList_eq_nil_iff.mp (List.map_eq_nil_iff.mp h))
  unfold answerOf closed
  rw [Json.loads_member h₁ h₂ h₃ h₄ hk hv]
  have hmember : member [(points "response", .str (points answer))] "response" = some (.str (points answer)) := by
    simp [member]
  have hanswer : answerIn [(points "response", .str (points answer))] = some (points answer) := by
    simp [answerIn, answerKeys, hmember, hpoints]
  simp only [hanswer, Option.getD_some]

theorem answerOf_unclosed (h₁ : Blank b₁) (h₂ : Blank b₂) (h₃ : Blank b₃) (hk : WritesAll (points "response") key)
    (h : Json.scanString text = none) :
    answerOf (opening b₁ key b₂ b₃ ++ text) = .ok (opening b₁ key b₂ b₃ ++ text) := by
  rw [answerOf, Json.loads_unclosed h₁ h₂ h₃ hk h]

/-- An opening, in a text that is stripped, stays. -/
theorem strip_opening (h₀ : Blank b₀) (t : Text) :
    strip (b₀ ++ (opening b₁ key b₂ b₃ ++ t)) = opening b₁ key b₂ b₃ ++ t.rdropWhile isSpaceCode := by
  have hopening (t : Text) : opening b₁ key b₂ b₃ ++ t = 0x7B :: ((b₁ ++ 0x22 :: (key ++ 0x22 :: (b₂ ++ 0x3A :: b₃))) ++ 0x22 :: t) := by
    simp only [opening, List.cons_append, List.append_assoc, List.nil_append]
  rw [hopening, strip_append_cons (fun c hc => isSpaceCode_of_isBlank (h₀ c hc)) rfl, rdropWhile_append_cons rfl, hopening]

theorem rdropWhile_closed (h₅ : ∀ c ∈ b₅, isSpaceCode c = true) (text b₄ : Text) :
    (text ++ 0x22 :: (b₄ ++ 0x7D :: b₅)).rdropWhile isSpaceCode = text ++ 0x22 :: (b₄ ++ [0x7D]) := by
  have hsplit (t : Text) : text ++ 0x22 :: (b₄ ++ 0x7D :: t) = (text ++ 0x22 :: b₄) ++ 0x7D :: t := by
    simp only [List.cons_append, List.append_assoc]
  rw [hsplit, rdropWhile_append_cons rfl, List.rdropWhile_eq_nil_iff.mpr h₅, ← hsplit]

/-- The three characters that break a line and that JSON does not escape. -/
def IsSeparator (c : ℕ) : Prop := c = 0x85 ∨ c = 0x2028 ∨ c = 0x2029

instance (c : ℕ) : Decidable (IsSeparator c) := inferInstanceAs (Decidable (_ ∨ _))

/-- In a JSON of one line they are all that breaks one. -/
theorem isLineBreak_iff {c : ℕ} (hc : isBlank c = true ∨ 0x20 ≤ c) (hn : c ≠ 0x0A) (hr : c ≠ 0x0D) :
    isLineBreak c = true ↔ IsSeparator c := by
  simp only [isBlank, Bool.or_eq_true, beq_iff_eq] at hc
  simp only [isLineBreak, decide_eq_true_eq, IsSeparator]
  omega

theorem forall_mem_opening {P : ℕ → Prop} (hP : ∀ c ∈ [0x7B, 0x22, 0x3A], P c) (h₁ : ∀ c ∈ b₁, P c)
    (hk : ∀ c ∈ key, P c) (h₂ : ∀ c ∈ b₂, P c) (h₃ : ∀ c ∈ b₃, P c) : ∀ c ∈ opening b₁ key b₂ b₃, P c := by
  simp only [List.forall_mem_cons] at hP
  simp only [opening, List.forall_mem_cons, List.forall_mem_append]
  exact ⟨hP.1, h₁, hP.2.1, hk, hP.2.1, h₂, hP.2.2.1, h₃, hP.2.1, fun _ h => by cases h⟩

theorem forall_mem_json {P : ℕ → Prop} (hP : ∀ c ∈ [0x7B, 0x22, 0x3A, 0x7D], P c)
    (hb : ∀ c, isBlank c = true → P c) (h₀ : Blank b₀) (h₁ : Blank b₁) (h₂ : Blank b₂) (h₃ : Blank b₃) (h₄ : Blank b₄)
    (h₅ : Blank b₅) (hk : ∀ c ∈ key, P c) (hv : ∀ c ∈ text, P c) :
    ∀ c ∈ b₀ ++ (opening b₁ key b₂ b₃ ++ (text ++ 0x22 :: (b₄ ++ 0x7D :: b₅))), P c := by
  simp only [List.forall_mem_cons] at hP
  have hblank {b : Text} (h : Blank b) : ∀ c ∈ b, P c := fun c hc => hb c (h c hc)
  have hopening : ∀ c ∈ opening b₁ key b₂ b₃, P c :=
    forall_mem_opening (by simp only [List.forall_mem_cons]; exact ⟨hP.1, hP.2.1, hP.2.2.1, fun _ h => by cases h⟩)
      (hblank h₁) hk (hblank h₂) (hblank h₃)
  simp only [List.forall_mem_append, List.forall_mem_cons]
  exact ⟨hblank h₀, hopening, hv, hP.2.1, hblank h₄, hP.2.2.2.1, hblank h₅⟩

/-- The code points of a JSON that is written so are characters. -/
theorem scalar_of_mem_writesMember {name value json : Text} (hn : ∀ c ∈ name, Utf8.Scalar c)
    (hval : ∀ c ∈ value, Utf8.Scalar c) (hj : WritesMember name value json) : ∀ c ∈ json, Utf8.Scalar c := by
  have hascii {c : ℕ} (h : c < 0x80) : Utf8.Scalar c := .inl (h.trans (by decide))
  obtain ⟨h₀, h₁, h₂, h₃, h₄, h₅, hk, hv⟩ := hj
  refine forall_mem_json (fun c hc => ?_) (fun c hc => ?_) h₀ h₁ h₂ h₃ h₄ h₅ (fun c hc => ?_) fun c hc => ?_
  · exact hascii ((show ∀ c ∈ [0x7B, 0x22, 0x3A, 0x7D], c < 0x80 by decide) c hc)
  · simp only [isBlank, Bool.or_eq_true, beq_iff_eq] at hc
    exact hascii (by omega)
  · exact (hk.mem c hc).2.elim (hn c) hascii
  · exact (hv.mem c hc).2.elim (hval c) hascii

/-- A body that is no event is the answer's JSON, and no more. -/
theorem extract_plain {json : Text} (hj : WritesMember (points "response") (points answer) json) (hne : answer ≠ "")
    {contentType : String} (hc : isEventStream contentType = false) :
    extract (Utf8.encode json) contentType = .ok (points answer) := by
  have hscalar := scalar_of_mem_writesMember (fun _ => scalar_of_mem_points) (fun _ => scalar_of_mem_points) hj
  obtain ⟨h₀, h₁, h₂, h₃, h₄, h₅, hk, hv⟩ := hj
  have hspaces := fun c hc => isSpaceCode_of_isBlank (h₅ c hc)
  rw [extract, Utf8.decode_encode hscalar, strip_opening h₀, rdropWhile_closed hspaces, hc]
  exact answerOf_closed h₁ h₂ h₃ h₄ hk hv hne

/-! ## Events -/

theorem mem_intercalate {c x : ℕ} {ls : List Text} (h : x ∈ [c].intercalate ls) : x = c ∨ ∃ l ∈ ls, x ∈ l := by
  induction ls with
  | nil => cases h
  | cons l ls ih =>
    cases ls with
    | nil =>
      rw [List.intercalate_singleton] at h
      exact .inr ⟨l, List.mem_cons_self, h⟩
    | cons l' ls =>
      rw [List.intercalate_cons_cons] at h
      simp only [List.mem_append, List.mem_singleton] at h
      obtain (h | h) | h := h
      · exact .inr ⟨l, List.mem_cons_self, h⟩
      · exact .inl h
      · exact (ih h).imp_right fun ⟨l, hl, hx⟩ => ⟨l, List.mem_cons_of_mem _ hl, hx⟩

theorem dataPrefix_line (t : Text) : dataPrefix.isPrefixOf (dataPrefix ++ t) = true ∧
    (dataPrefix ++ t).drop dataPrefix.length = t :=
  ⟨List.isPrefixOf_iff_prefix.mpr (List.prefix_append ..), List.drop_left ..⟩

theorem dataPrefix_unbroken : ∀ c ∈ dataPrefix, isLineBreak c = false := by decide

theorem eventText_eq {text joined : Text} (h : [0x0A].intercalate (dataLines text) = joined) (hne : strip joined ≠ []) :
    eventText text = strip joined := by
  subst h
  exact if_neg hne

/-- The data of an event of one line. -/
theorem eventText_unbroken {t : Text} (ht : ∀ c ∈ t, isLineBreak c = false) (hne : strip t ≠ []) :
    eventText (dataPrefix ++ t) = strip t := by
  have hline : ∀ c ∈ dataPrefix ++ t, isLineBreak c = false :=
    List.forall_mem_append.mpr ⟨dataPrefix_unbroken, ht⟩
  have hlines : splitlines (dataPrefix ++ t) = [dataPrefix ++ t] :=
    splitlines_unbroken (List.append_ne_nil_of_left_ne_nil (by decide) t) hline
  refine eventText_eq ?_ hne
  rw [dataLines, hlines, List.filter_cons_of_pos (dataPrefix_line t).1, List.filter_nil, List.map_singleton,
    (dataPrefix_line t).2, List.intercalate_singleton]

/-- The data of an event that is broken after its first line: that line, and of
the others what starts like data. -/
theorem eventText_broken {a : Text} {c : ℕ} (ha : ∀ x ∈ a, isLineBreak x = false) (hc : isLineBreak c = true)
    (t : Text) (hne : ∀ more, strip (a ++ more) ≠ []) :
    ∃ more, eventText (dataPrefix ++ (a ++ c :: t)) = strip (a ++ more) ∧ (more = [] ∨ more.head? = some 0x0A) ∧
      ∀ x ∈ more, x = 0x0A ∨ isLineBreak x = false := by
  have hline : ∀ x ∈ dataPrefix ++ a, isLineBreak x = false :=
    List.forall_mem_append.mpr ⟨dataPrefix_unbroken, ha⟩
  obtain ⟨lines, hlines⟩ := splitlines_broken hline hc t
  have hunbroken := linesFrom_unbroken false (dataPrefix ++ a ++ c :: t)
  rw [← splitlines, hlines] at hunbroken
  let chunks := (lines.filter fun line => dataPrefix.isPrefixOf line).map fun line => line.drop dataPrefix.length
  have hchunks : ∀ chunk ∈ chunks, ∀ x ∈ chunk, isLineBreak x = false := by
    intro chunk hchunk x hx
    obtain ⟨line, hl, rfl⟩ := List.mem_map.mp hchunk
    exact hunbroken line (List.mem_cons_of_mem _ (List.mem_filter.mp hl).1) x (List.mem_of_mem_drop hx)
  have htext (more : Text) (h : [0x0A].intercalate (a :: chunks) = a ++ more) :
      eventText (dataPrefix ++ (a ++ c :: t)) = strip (a ++ more) := by
    refine eventText_eq ?_ (hne more)
    rw [dataLines, ← List.append_assoc, hlines, List.filter_cons_of_pos (dataPrefix_line a).1, List.map_cons,
      (dataPrefix_line a).2]
    exact h
  cases hcases : chunks with
  | nil =>
    refine ⟨[], htext [] ?_, .inl rfl, fun _ h => by cases h⟩
    rw [hcases, List.intercalate_singleton, List.append_nil]
  | cons chunk rest =>
    refine ⟨0x0A :: [0x0A].intercalate (chunk :: rest), htext _ ?_, .inr rfl, fun x hx => ?_⟩
    · rw [hcases, List.intercalate_cons_cons, List.append_assoc]
      rfl
    · obtain rfl | hx := List.mem_cons.mp hx
      · exact .inl rfl
      · obtain rfl | ⟨l, hl, hx⟩ := mem_intercalate hx
        · exact .inl rfl
        · exact .inr (hchunks l (hcases ▸ hl) x hx)

/-- An event, stripped: its last line is complete. -/
theorem strip_event (h₅ : Blank b₅) :
    strip (dataPrefix ++ (b₀ ++ (opening b₁ key b₂ b₃ ++ (text ++ 0x22 :: (b₄ ++ 0x7D :: b₅))) ++ [0x0A])) =
      dataPrefix ++ (b₀ ++ closed b₁ key b₂ b₃ text b₄) := by
  have hsplit (t : Text) : dataPrefix ++ (b₀ ++ (opening b₁ key b₂ b₃ ++ (text ++ 0x22 :: (b₄ ++ 0x7D :: t)))) =
      0x64 :: ((dataPrefix.tail ++ (b₀ ++ (opening b₁ key b₂ b₃ ++ (text ++ 0x22 :: b₄)))) ++ 0x7D :: t) := by
    simp only [List.append_assoc, List.cons_append]
    rfl
  have hspaces : ∀ c ∈ b₅ ++ [0x0A], isSpaceCode c = true :=
    List.forall_mem_append.mpr ⟨fun c hc => isSpaceCode_of_isBlank (h₅ c hc), by decide⟩
  have hassoc : dataPrefix ++ (b₀ ++ (opening b₁ key b₂ b₃ ++ (text ++ 0x22 :: (b₄ ++ 0x7D :: b₅))) ++ [0x0A]) =
      dataPrefix ++ (b₀ ++ (opening b₁ key b₂ b₃ ++ (text ++ 0x22 :: (b₄ ++ 0x7D :: (b₅ ++ [0x0A]))))) := by
    simp only [List.append_assoc, List.cons_append]
  have hstrip (t : Text) : strip (0x64 :: t) = 0x64 :: t.rdropWhile isSpaceCode :=
    strip_append_cons (a := []) (fun _ h => by cases h) rfl t
  rw [hassoc, hsplit, hstrip, rdropWhile_append_cons rfl, List.rdropWhile_eq_nil_iff.mpr hspaces, closed, hsplit]

/-- A string is not read that ends before its quote, or runs into a line feed. -/
theorem scanString_broken {v as more : Text} (hv : WritesAll as v) (hmore : more = [] ∨ more.head? = some 0x0A) :
    Json.scanString ((v ++ more).rdropWhile isSpaceCode) = none := by
  obtain ⟨w, hw⟩ := List.rdropWhile_prefix isSpaceCode (v ++ more)
  have hnone : Json.scanString more = none := by
    obtain rfl | hmore := hmore
    · rfl
    · obtain ⟨m, rfl⟩ : ∃ m, more = 0x0A :: m := by
        cases more with
        | nil => cases hmore
        | cons x m => exact ⟨m, by rw [Option.some.inj hmore]⟩
      rfl
  cases h : Json.scanString ((v ++ more).rdropWhile isSpaceCode) with
  | none => rfl
  | some x =>
    -- what is read of a text is read of any longer one
    have hlong := Json.scanString_append h w
    rw [hw, Json.scanString_writesAll hv, hnone] at hlong
    cases hlong

/-- What does not break a line, in a JSON of one line. -/
def Unbroken (c : ℕ) : Prop := c ≠ 0x0A → c ≠ 0x0D → isLineBreak c = false

theorem unbroken_ascii {c : ℕ} (h : c < 0x80) (hc : isBlank c = true ∨ 0x20 ≤ c) : Unbroken c := by
  intro hn hr
  refine Bool.eq_false_iff.mpr fun hb => ?_
  have hsep := (isLineBreak_iff hc hn hr).mp hb
  unfold IsSeparator at hsep
  omega

theorem unbroken_blank {c : ℕ} (h : isBlank c = true) : Unbroken c := by
  refine unbroken_ascii ?_ (.inl h)
  simp only [isBlank, Bool.or_eq_true, beq_iff_eq] at h
  omega

theorem unbroken_key (hk : WritesAll (points "response") key) : ∀ c ∈ key, Unbroken c := by
  intro c hc
  obtain ⟨h20, hc | hc⟩ := hk.mem c hc
  · exact unbroken_ascii ((show ∀ c ∈ points "response", c < 0x80 by decide) c hc) (.inr h20)
  · exact unbroken_ascii hc (.inr h20)

/-- The answer of an event that is broken within it is not what was sent: it has
not the character that broke it. -/
theorem extract_broken (h₀ : Blank b₀) (h₁ : Blank b₁) (h₂ : Blank b₂) (h₃ : Blank b₃)
    (hk : WritesAll (points "response") key) {v as w : Text} {c : ℕ} (hv : WritesAll as v)
    (hvl : ∀ x ∈ v, isLineBreak x = false) (hc : isLineBreak c = true) (hn : c ≠ 0x0A) (hmem : c ∈ points answer)
    (hline : ∀ x ∈ b₀ ++ opening b₁ key b₂ b₃, x ≠ 0x0A ∧ x ≠ 0x0D) :
    answerOf (eventText (dataPrefix ++ (b₀ ++ (opening b₁ key b₂ b₃ ++ (v ++ c :: w))))) ≠ .ok (points answer) := by
  have hblank {b : Text} (h : Blank b) : ∀ c ∈ b, Unbroken c := fun c hc => unbroken_blank (h c hc)
  have hopening : ∀ x ∈ b₀ ++ opening b₁ key b₂ b₃, Unbroken x :=
    List.forall_mem_append.mpr ⟨hblank h₀, forall_mem_opening
      (fun x hx => unbroken_ascii ((show ∀ x ∈ [0x7B, 0x22, 0x3A], x < 0x80 by decide) x hx)
        (.inr ((show ∀ x ∈ [0x7B, 0x22, 0x3A], 0x20 ≤ x by decide) x hx)))
      (hblank h₁) (unbroken_key hk) (hblank h₂) (hblank h₃)⟩
  have hstart : ∀ x ∈ b₀ ++ opening b₁ key b₂ b₃, isLineBreak x = false := fun x hx =>
    hopening x hx (hline x hx).1 (hline x hx).2
  have ha : ∀ x ∈ b₀ ++ (opening b₁ key b₂ b₃ ++ v), isLineBreak x = false := by
    rw [← List.append_assoc]
    exact List.forall_mem_append.mpr ⟨hstart, hvl⟩
  have hstrip (more : Text) : strip (b₀ ++ (opening b₁ key b₂ b₃ ++ v) ++ more) =
      opening b₁ key b₂ b₃ ++ (v ++ more).rdropWhile isSpaceCode := by
    rw [← strip_opening h₀]
    simp only [List.append_assoc]
  obtain ⟨more, htext, hmore, hmem'⟩ := eventText_broken ha hc w fun more => by
    rw [hstrip]
    exact List.append_ne_nil_of_left_ne_nil (List.cons_ne_nil _ _) _
  have htext : eventText (dataPrefix ++ (b₀ ++ (opening b₁ key b₂ b₃ ++ (v ++ c :: w)))) =
      opening b₁ key b₂ b₃ ++ (v ++ more).rdropWhile isSpaceCode := by
    rw [← hstrip, ← htext]
    simp only [List.append_assoc]
  rw [htext, answerOf_unclosed h₁ h₂ h₃ hk (scanString_broken hv hmore)]
  intro h
  have hin : c ∈ opening b₁ key b₂ b₃ ++ (v ++ more).rdropWhile isSpaceCode := Except.ok.inj h ▸ hmem
  have hnot : ∀ x ∈ opening b₁ key b₂ b₃ ++ (v ++ more), x = 0x0A ∨ isLineBreak x = false :=
    List.forall_mem_append.mpr ⟨fun x hx => .inr (hstart x (List.mem_append_right _ hx)),
      List.forall_mem_append.mpr ⟨fun x hx => .inr (hvl x hx), hmem'⟩⟩
  have hsub : c ∈ opening b₁ key b₂ b₃ ++ (v ++ more) :=
    (List.mem_append.mp hin).elim (List.mem_append_left _) fun h =>
      List.mem_append_right _ ((List.rdropWhile_prefix isSpaceCode _).subset h)
  obtain he | he := hnot c hsub
  · exact hn he
  · rw [hc] at he
    cases he

/-- An event's answer is the one that was sent, exactly where no character of
its JSON breaks its line. -/
theorem extract_event {json : Text} (hj : WritesMember (points "response") (points answer) json) (hne : answer ≠ "")
    {contentType : String} (hc : isEventStream contentType = true) (hline : 0x0A ∉ json ∧ 0x0D ∉ json) :
    extract (Utf8.encode (dataPrefix ++ (json ++ [0x0A]))) contentType = .ok (points answer) ↔
      ∀ c ∈ json, ¬ IsSeparator c := by
  have hscalar := scalar_of_mem_writesMember (fun _ => scalar_of_mem_points) (fun _ => scalar_of_mem_points) hj
  have hbytes : ∀ c ∈ dataPrefix ++ (json ++ [0x0A]), Utf8.Scalar c :=
    List.forall_mem_append.mpr ⟨by decide, List.forall_mem_append.mpr ⟨hscalar, by decide⟩⟩
  rw [extract, Utf8.decode_encode hbytes]
  obtain ⟨h₀, h₁, h₂, h₃, h₄, h₅, hk, hv⟩ := hj
  rename_i b₀ b₁ b₂ b₃ b₄ b₅ key text
  simp only [strip_event h₅, hc, if_true]
  have hascii : ∀ x ∈ [0x7B, 0x22, 0x3A, 0x7D], Unbroken x := fun x hx =>
    unbroken_ascii ((show ∀ x ∈ [0x7B, 0x22, 0x3A, 0x7D], x < 0x80 by decide) x hx)
      (.inr ((show ∀ x ∈ [0x7B, 0x22, 0x3A, 0x7D], 0x20 ≤ x by decide) x hx))
  have hjson : (∀ x ∈ text, Unbroken x) →
      ∀ x ∈ b₀ ++ (opening b₁ key b₂ b₃ ++ (text ++ 0x22 :: (b₄ ++ 0x7D :: b₅))), isLineBreak x = false :=
    fun htext x hx => forall_mem_json hascii (fun _ => unbroken_blank) h₀ h₁ h₂ h₃ h₄ h₅ (unbroken_key hk) htext x hx
      (fun e => hline.1 (e ▸ hx)) fun e => hline.2 (e ▸ hx)
  by_cases htext : ∀ x ∈ text, Unbroken x
  · -- the event is one line
    have hall := hjson htext
    refine iff_of_true ?_ fun x hx hsep => ?_
    · have hclosed : ∀ x ∈ b₀ ++ closed b₁ key b₂ b₃ text b₄, isLineBreak x = false := fun x hx => by
        refine hall x ?_
        have hsplit : b₀ ++ (opening b₁ key b₂ b₃ ++ (text ++ 0x22 :: (b₄ ++ 0x7D :: b₅))) =
            (b₀ ++ closed b₁ key b₂ b₃ text b₄) ++ b₅ := by
          simp only [closed, List.append_assoc, List.cons_append, List.nil_append]
        rw [hsplit]
        exact List.mem_append_left _ hx
      have hstrip : strip (b₀ ++ closed b₁ key b₂ b₃ text b₄) = closed b₁ key b₂ b₃ text b₄ := by
        rw [closed, strip_opening h₀, rdropWhile_closed (List.forall_mem_nil _)]
      rw [eventText_unbroken hclosed (by rw [hstrip]; exact List.cons_ne_nil _ _), hstrip]
      exact answerOf_closed h₁ h₂ h₃ h₄ hk hv hne
    · have hx' := hall x hx
      simp only [isLineBreak, decide_eq_false_iff_not, IsSeparator] at hx' hsep
      omega
  · -- it is broken within the answer
    simp only [Unbroken, not_forall, Bool.not_eq_false] at htext
    obtain ⟨x, hx, -, -, hbreak⟩ := htext
    obtain ⟨as, v, c, w, rfl, hv', hvl, hc', hmem⟩ := hv.split (fun _ => isLineBreak_ascii) ⟨x, hx, hbreak⟩
    have hcj : c ∈ b₀ ++ (opening b₁ key b₂ b₃ ++ ((v ++ c :: w) ++ 0x22 :: (b₄ ++ 0x7D :: b₅))) := by simp
    have hcn : c ≠ 0x0A := fun e => hline.1 (e ▸ hcj)
    have hcr : c ≠ 0x0D := fun e => hline.2 (e ▸ hcj)
    have hclosed : b₀ ++ closed b₁ key b₂ b₃ (v ++ c :: w) b₄ =
        b₀ ++ (opening b₁ key b₂ b₃ ++ (v ++ c :: (w ++ 0x22 :: (b₄ ++ [0x7D])))) := by
      simp only [closed, List.append_assoc, List.cons_append]
    have h20 : 0x20 ≤ c := (hv.mem c (by simp)).1
    refine iff_of_false ?_ fun h => h c hcj ((isLineBreak_iff (.inr h20) hcn hcr).mp hc')
    rw [hclosed]
    refine extract_broken h₀ h₁ h₂ h₃ hk hv' hvl hc' hcn hmem fun y hy => ?_
    have hyj : y ∈ b₀ ++ (opening b₁ key b₂ b₃ ++ ((v ++ c :: w) ++ 0x22 :: (b₄ ++ 0x7D :: b₅))) := by
      rw [← List.append_assoc]
      exact List.mem_append_left _ hy
    exact ⟨fun e => hline.1 (e ▸ hyj), fun e => hline.2 (e ▸ hyj)⟩

end

/-! ## Both ways to send it -/

/-- How a runtime sends its answer. -/
inductive Sent
  | body
  /-- One line of a server-sent event. -/
  | event

def Sent.bytes : Sent → Text → List UInt8
  | body, json => Utf8.encode json
  | event, json => Utf8.encode (dataPrefix ++ (json ++ [0x0A]))

/-- What the content type says it is. -/
def Sent.isEvent : Sent → Bool
  | body => false
  | event => true

/-- The answer is the one that was sent, in whichever way it was written and
sent, exactly where none of the three characters breaks an event's line. -/
theorem extract_intact_iff {answer : String} {json : Text} (hne : answer ≠ "")
    (hj : WritesMember (points "response") (points answer) json) (sent : Sent) {contentType : String}
    (hc : isEventStream contentType = sent.isEvent) (hline : sent.isEvent = true → 0x0A ∉ json ∧ 0x0D ∉ json) :
    extract (sent.bytes json) contentType = .ok (points answer) ↔
      (sent.isEvent = true → ∀ c ∈ json, ¬ IsSeparator c) := by
  cases sent with
  | body => exact iff_of_true (extract_plain hj hne hc) fun h => by cases h
  | event => exact (extract_event hj hne hc (hline rfl)).trans ⟨fun h _ => h, fun h => h rfl⟩

/-- An answer as it is, in the JSON of it with one blank. -/
def asItIs (answer : String) : Text := points ("\x7b\"response\": \"" ++ answer ++ "\"\x7d")

theorem asItIs_writes {answer : String} (h : ∀ c ∈ points answer, 0x20 ≤ c ∧ c ≠ 0x22 ∧ c ≠ 0x5C) :
    WritesMember (points "response") (points answer) (asItIs answer) := by
  have hblank : Blank [0x20] := List.forall_mem_singleton.mpr rfl
  have hnil : Blank [] := List.forall_mem_nil _
  have heq : asItIs answer = [] ++ (opening [] (points "response") [] [0x20] ++ (points answer ++ 0x22 :: ([] ++ 0x7D :: []))) := by
    simp only [asItIs, points, String.toList_append, List.map_append]
    rfl
  rw [heq]
  exact .mk hnil hnil hnil hblank hnil hnil (Json.writesAll_self (by decide)) (Json.writesAll_self h)

theorem extract_intact_cafe : extract (Sent.event.bytes (asItIs "café")) "text/event-stream" = .ok (points "café") ↔
    (Sent.event.isEvent = true → ∀ c ∈ asItIs "café", ¬ IsSeparator c) :=
  extract_intact_iff (by decide) (asItIs_writes (by decide)) .event (by decide) fun _ => by decide

/-- An answer with a line separator in it: what is left is the JSON up to it. -/
theorem extract_cut :
    WritesMember (points "response") (points "first\u2028second") (asItIs "first\u2028second") ∧
      (0x0A ∉ asItIs "first\u2028second" ∧ 0x0D ∉ asItIs "first\u2028second") ∧
        extract (Sent.event.bytes (asItIs "first\u2028second")) "text/event-stream" ≠
          .ok (points "first\u2028second") ∧
        extract (Sent.event.bytes (asItIs "first\u2028second")) "text/event-stream" =
          .ok (points "\x7b\"response\": \"first") :=
  ⟨asItIs_writes (by decide), by decide, by decide +kernel, by decide +kernel⟩

end ControlPlane
