import Mathlib.Data.List.TakeWhile
import Mathlib.Tactic.Common
import ControlPlane.Lib.Utf8

/-!
# JSON texts

JSON as Python's `json.loads` reads it, on texts as lists of code points. A
string is read in two steps: its pieces (`pieces`), each a character or what a
`\u` escape stands for, and then the text in which the two halves of a
surrogate pair are one character (`joined`).

* `Writes`, `WritesAll`: the ways to write a character and a text in a string.
* `scanString_writesAll`: whichever is taken, the text is read back.
* `loads_member`, `loads_unclosed`: an object of one string, and one that
  breaks off in it.
-/

namespace Json

open Utf8

/-- A text: its code points. -/
abbrev Text := List ℕ

/-- The code points of a string. -/
def points (s : String) : Text := s.toList.map Char.toNat

inductive Value
  | null
  | bool (b : Bool)
  /-- A number, as it is written. -/
  | number (lexeme : Text)
  | str (text : Text)
  | array (elements : List Value)
  /-- The members of an object, in the order of the text. -/
  | object (members : List (Text × Value))

/-- Why a text is not read. -/
inductive Refusal
  /-- It is no JSON: `JSONDecodeError`. -/
  | malformed
  /-- An integer has so many digits, more than are converted: `ValueError`. -/
  | digits (count : ℕ)
  /-- It is nested deeper than the reader goes. -/
  | depth
  deriving DecidableEq

/-! ## Blanks and strings -/

def isBlank (c : ℕ) : Bool := c == 0x20 || c == 0x09 || c == 0x0A || c == 0x0D

def skipBlank (text : Text) : Text := text.dropWhile isBlank

def hexDigit (c : ℕ) : Option ℕ :=
  if 0x30 ≤ c ∧ c ≤ 0x39 then some (c - 0x30)
  else if 0x41 ≤ c ∧ c ≤ 0x46 then some (c - 0x41 + 10)
  else if 0x61 ≤ c ∧ c ≤ 0x66 then some (c - 0x61 + 10)
  else none

/-- What four hexadecimal digits stand for. -/
def hex4 (a b c d : ℕ) : Option ℕ := do
  return (((0 * 16 + (← hexDigit a)) * 16 + (← hexDigit b)) * 16 + (← hexDigit c)) * 16 + (← hexDigit d)

/-- The escapes of one letter. -/
def shortEscape (e : ℕ) : Option ℕ :=
  if e = 0x22 ∨ e = 0x5C ∨ e = 0x2F then some e
  else if e = 0x62 then some 0x08
  else if e = 0x66 then some 0x0C
  else if e = 0x6E then some 0x0A
  else if e = 0x72 then some 0x0D
  else if e = 0x74 then some 0x09
  else none

/-- A character of a string, or what a `\u` escape of it stands for. -/
inductive Piece
  | char (c : ℕ)
  | escaped (u : ℕ)
  deriving DecidableEq

/-- Where a string has been read to: after a character, after a backslash, or
within a `\u` escape, with so many digits to come and the value so far. -/
inductive Place
  | between
  | slash
  | within (left value : ℕ)

/-- The pieces of a string up to the quote that closes it, and what follows. -/
def piecesFrom : Place → Text → Option (List Piece × Text)
  | _, [] => none
  | .between, c :: rest =>
    if c = 0x22 then some ([], rest)
    else if c = 0x5C then piecesFrom .slash rest
    else if c < 0x20 then none
    else (piecesFrom .between rest).map fun x => (.char c :: x.1, x.2)
  | .slash, e :: rest =>
    if e = 0x75 then piecesFrom (.within 4 0) rest
    else (shortEscape e).bind fun c => (piecesFrom .between rest).map fun x => (.char c :: x.1, x.2)
  | .within left value, d :: rest =>
    (hexDigit d).bind fun x =>
      if left ≤ 1 then (piecesFrom .between rest).map fun y => (.escaped (value * 16 + x) :: y.1, y.2)
      else piecesFrom (.within (left - 1) (value * 16 + x)) rest

/-- The pieces of a string that starts after a quote. -/
def pieces (text : Text) : Option (List Piece × Text) := piecesFrom .between text

def IsHigh (u : ℕ) : Prop := 0xD800 ≤ u ∧ u < 0xDC00

def IsLow (u : ℕ) : Prop := 0xDC00 ≤ u ∧ u < 0xE000

instance (u : ℕ) : Decidable (IsHigh u) := inferInstanceAs (Decidable (_ ∧ _))

instance (u : ℕ) : Decidable (IsLow u) := inferInstanceAs (Decidable (_ ∧ _))

/-- The character of a surrogate pair. -/
def pairOf (u v : ℕ) : ℕ := 0x10000 + (u - 0xD800) * 0x400 + (v - 0xDC00)

/-- The text of the pieces. -/
def joined : List Piece → Text
  | [] => []
  | .char c :: ps => c :: joined ps
  | .escaped u :: ps =>
    match ps with
    | .escaped v :: qs => if IsHigh u ∧ IsLow v then pairOf u v :: joined qs else u :: joined (.escaped v :: qs)
    | ps => u :: joined ps

/-- The string that starts after a quote, and what follows it. -/
def scanString (text : Text) : Option (Text × Text) := (pieces text).map fun x => (joined x.1, x.2)

/-! ## Numbers and values -/

def isDigit (c : ℕ) : Bool := decide (0x30 ≤ c ∧ c ≤ 0x39)

/-- The longest run of digits, and what follows. -/
def digits (text : Text) : Text × Text := text.span isDigit

/-- The integer part: no sign but a minus, and no leading zero. -/
def integerPart (text : Text) : Option (Text × Text) :=
  let (sign, text) := if text.head? = some 0x2D then ([0x2D], text.tail) else ([], text)
  match text with
  | [] => none
  | c :: rest =>
    if c = 0x30 then some (sign ++ [c], rest)
    else if isDigit c then some (sign ++ c :: (digits rest).1, (digits rest).2)
    else none

/-- A point and the digits after it, if there are any. -/
def fractionPart (text : Text) : Text × Text :=
  let (ds, rest) := digits text.tail
  if text.head? = some 0x2E ∧ ds ≠ [] then (0x2E :: ds, rest) else ([], text)

/-- An exponent, if there is one. -/
def exponentPart (text : Text) : Text × Text :=
  match text with
  | [] => ([], text)
  | e :: rest =>
    let (sign, rest) := if rest.head? = some 0x2B ∨ rest.head? = some 0x2D then (rest.take 1, rest.tail) else ([], rest)
    let (ds, rest) := digits rest
    if (e = 0x65 ∨ e = 0x45) ∧ ds ≠ [] then (e :: sign ++ ds, rest) else ([], text)

/-- The digits of an integer that Python converts. -/
def maxDigits : ℕ := 4300

def scanNumber (text : Text) : Except Refusal (Value × Text) :=
  match integerPart text with
  | none => .error .malformed
  | some (int, rest) =>
    let (frac, rest) := fractionPart rest
    let (exp, rest) := exponentPart rest
    if frac = [] ∧ exp = [] ∧ maxDigits < (int.filter isDigit).length then
      .error (.digits (int.filter isDigit).length)
    else .ok (.number (int ++ frac ++ exp), rest)

/-- The words that are values, and what they are. -/
def words : List (Text × Value) :=
  [(points "null", .null), (points "true", .bool true), (points "false", .bool false), (points "NaN", .number (points "NaN")),
    (points "Infinity", .number (points "Infinity")), (points "-Infinity", .number (points "-Infinity"))]

/-- The word that the text starts with, if it does. -/
def scanWord (text : Text) : Option (Value × Text) :=
  (words.find? fun w => w.1.isPrefixOf text).map fun w => (w.2, text.drop w.1.length)

/-- What follows the character, if the text starts with it. -/
def expect (c : ℕ) (text : Text) : Option Text := if text.head? = some c then some text.tail else none

mutual

/-- The value that a text starts with, and what follows; it calls itself so
many times at most. -/
def scanValue : ℕ → Text → Except Refusal (Value × Text)
  | 0, _ => .error .depth
  | n + 1, text =>
    match text with
    | [] => .error .malformed
    | c :: rest =>
      if c = 0x22 then
        match scanString rest with
        | none => .error .malformed
        | some (s, rest) => .ok (.str s, rest)
      else if c = 0x7B then
        match expect 0x7D (skipBlank rest) with
        | some rest => .ok (.object [], rest)
        | none => (scanMembers n (skipBlank rest)).map fun x => (.object x.1, x.2)
      else if c = 0x5B then
        match expect 0x5D (skipBlank rest) with
        | some rest => .ok (.array [], rest)
        | none => (scanElements n (skipBlank rest)).map fun x => (.array x.1, x.2)
      else
        match scanWord text with
        | some x => .ok x
        | none => scanNumber text

/-- The members of an object, from the quote of the next key. -/
def scanMembers : ℕ → Text → Except Refusal (List (Text × Value) × Text)
  | 0, _ => .error .depth
  | n + 1, text =>
    match (expect 0x22 text).bind scanString with
    | none => .error .malformed
    | some (key, rest) =>
      match expect 0x3A (skipBlank rest) with
      | none => .error .malformed
      | some rest =>
        match scanValue n (skipBlank rest) with
        | .error e => .error e
        | .ok (v, rest) =>
          match expect 0x7D (skipBlank rest) with
          | some rest => .ok ([(key, v)], rest)
          | none =>
            match expect 0x2C (skipBlank rest) with
            | none => .error .malformed
            | some rest => (scanMembers n (skipBlank rest)).map fun x => ((key, v) :: x.1, x.2)

/-- The elements of an array, from the next one. -/
def scanElements : ℕ → Text → Except Refusal (List Value × Text)
  | 0, _ => .error .depth
  | n + 1, text =>
    match scanValue n text with
    | .error e => .error e
    | .ok (v, rest) =>
      match expect 0x5D (skipBlank rest) with
      | some rest => .ok ([v], rest)
      | none =>
        match expect 0x2C (skipBlank rest) with
        | none => .error .malformed
        | some rest => (scanElements n (skipBlank rest)).map fun x => (v :: x.1, x.2)

end

/-- `json.loads`. A bracket takes two calls, of the value and of its elements. -/
def loads (text : Text) : Except Refusal Value :=
  if text.head? = some 0xFEFF then .error .malformed
  else
    match scanValue (2 * text.length + 2) (skipBlank text) with
    | .error e => .error e
    | .ok (v, rest) => if skipBlank rest = [] then .ok v else .error .malformed

/-! ## Ways to write a string -/

/-- The ways to write a character in a string. -/
inductive Writes : ℕ → Text → Prop
  | plain {c : ℕ} (hc : 0x20 ≤ c) (hq : c ≠ 0x22) (hb : c ≠ 0x5C) : Writes c [c]
  | short {e c : ℕ} (h : shortEscape e = some c) : Writes c [0x5C, e]
  | unit {a b c d u : ℕ} (h : hex4 a b c d = some u) (hu : Scalar u) : Writes u [0x5C, 0x75, a, b, c, d]
  | pair {a b c d a' b' c' d' u v : ℕ} (h : hex4 a b c d = some u) (hu : IsHigh u) (h' : hex4 a' b' c' d' = some v)
    (hv : IsLow v) : Writes (pairOf u v) [0x5C, 0x75, a, b, c, d, 0x5C, 0x75, a', b', c', d']

/-- The ways to write a text in a string. -/
inductive WritesAll : Text → Text → Prop
  | nil : WritesAll [] []
  | cons {c : ℕ} {cs t ts : Text} (h : Writes c t) (hs : WritesAll cs ts) : WritesAll (c :: cs) (t ++ ts)

section

variable {c : ℕ} {cs t ts rest : Text}

theorem pieces_unit {a b c d u : ℕ} (h : hex4 a b c d = some u) (rest : Text) :
    pieces (0x5C :: 0x75 :: a :: b :: c :: d :: rest) = (pieces rest).map fun x => (.escaped u :: x.1, x.2) := by
  simp only [hex4, Option.bind_eq_bind, Option.bind_eq_some_iff, Option.pure_def, Option.some.injEq] at h
  obtain ⟨x, ha, y, hb, z, hc, w, hd, rfl⟩ := h
  have hslash : pieces (0x5C :: 0x75 :: a :: b :: c :: d :: rest) = piecesFrom (.within 4 0) (a :: b :: c :: d :: rest) := rfl
  rw [hslash]
  simp [piecesFrom, pieces, ha, hb, hc, hd]

theorem pieces_short {e : ℕ} (h : shortEscape e = some c) (rest : Text) :
    pieces (0x5C :: e :: rest) = (pieces rest).map fun x => (.char c :: x.1, x.2) := by
  have he : e ≠ 0x75 := by
    rintro rfl
    cases h
  have hslash : pieces (0x5C :: e :: rest) = piecesFrom .slash (e :: rest) := rfl
  rw [hslash, piecesFrom, if_neg he, h]
  rfl

theorem pieces_plain (hc : 0x20 ≤ c) (hq : c ≠ 0x22) (hb : c ≠ 0x5C) (rest : Text) :
    pieces (c :: rest) = (pieces rest).map fun x => (.char c :: x.1, x.2) := by
  rw [pieces, piecesFrom, if_neg hq, if_neg hb, if_neg (Nat.not_lt.mpr hc)]
  rfl

/-- A unit that is no half of a pair stands alone. -/
theorem joined_unit {u : ℕ} (hu : Scalar u) (ps : List Piece) : joined (.escaped u :: ps) = u :: joined ps := by
  have hne : ¬ IsHigh u := by
    unfold Scalar at hu
    unfold IsHigh
    omega
  cases ps with
  | nil => rfl
  | cons p ps =>
    cases p with
    | char c => rfl
    | escaped v => rw [joined, if_neg fun h => hne h.1]

/-- Each way to write a character makes pieces that come to it. -/
theorem Writes.pieces (h : Writes c t) : ∃ ps : List Piece,
    (∀ rest, pieces (t ++ rest) = (pieces rest).map fun x => (ps ++ x.1, x.2)) ∧
      ∀ qs, joined (ps ++ qs) = c :: joined qs := by
  cases h with
  | plain hc hq hb => exact ⟨[.char c], fun rest => pieces_plain hc hq hb rest, fun _ => rfl⟩
  | short h => exact ⟨[.char c], fun rest => pieces_short h rest, fun _ => rfl⟩
  | unit h hu => exact ⟨[.escaped c], fun rest => pieces_unit h rest, fun qs => joined_unit hu qs⟩
  | @pair _ _ _ _ _ _ _ _ u v h hu h' hv =>
    refine ⟨[.escaped u, .escaped v], fun rest => ?_, fun qs => if_pos ⟨hu, hv⟩⟩
    refine (pieces_unit h _).trans ((congrArg (Option.map _) (pieces_unit h' rest)).trans ?_)
    rw [Option.map_map]
    rfl

/-- Whichever way a text is written, it is read back. -/
theorem scanString_writesAll (h : WritesAll cs t) (rest : Text) :
    scanString (t ++ rest) = (scanString rest).map fun x => (cs ++ x.1, x.2) := by
  induction h with
  | nil => cases hr : scanString rest <;> simp [hr]
  | cons hc hs ih =>
    obtain ⟨ps, hp, hj⟩ := hc.pieces
    simp only [scanString] at ih ⊢
    rw [List.append_assoc, hp, Option.map_map]
    rename_i ts
    cases hr : Json.pieces (ts ++ rest) with
    | none =>
      rw [hr] at ih
      cases hr' : Json.pieces rest with
      | none => rfl
      | some x => rw [hr'] at ih; cases ih
    | some y =>
      rw [hr] at ih
      cases hr' : Json.pieces rest with
      | none => rw [hr'] at ih; cases ih
      | some x =>
        rw [hr'] at ih
        simp only [Option.map_some, Option.some.injEq, Prod.mk.injEq] at ih
        simp [hj, ih]

/-- A text without quotes, backslashes and control characters is written as it is. -/
theorem writesAll_self (h : ∀ c ∈ t, 0x20 ≤ c ∧ c ≠ 0x22 ∧ c ≠ 0x5C) : WritesAll t t := by
  induction t with
  | nil => exact .nil
  | cons c t ih =>
    obtain ⟨hc, hq, hb⟩ := h c List.mem_cons_self
    exact .cons (.plain hc hq hb) (ih fun d hd => h d (List.mem_cons_of_mem c hd))

theorem scanString_close (rest : Text) : scanString (0x22 :: rest) = some ([], rest) := rfl

/-- A string that is read is read from any longer text. -/
theorem piecesFrom_append {place : Place} {x : List Piece × Text} (h : piecesFrom place t = some x) (w : Text) :
    piecesFrom place (t ++ w) = some (x.1, x.2 ++ w) := by
  induction t generalizing place x with
  | nil => cases place <;> cases h
  | cons c t ih =>
    rw [List.cons_append]
    cases place with
    | between =>
      simp only [piecesFrom] at h ⊢
      split_ifs at h ⊢ with hq hb hc
      · cases h
        rfl
      · exact ih h
      · obtain ⟨y, hy, rfl⟩ := Option.map_eq_some_iff.mp h
        rw [ih hy]
        rfl
    | slash =>
      simp only [piecesFrom] at h ⊢
      split_ifs at h ⊢ with hu
      · exact ih h
      · obtain ⟨d, hd, h⟩ := Option.bind_eq_some_iff.mp h
        obtain ⟨y, hy, rfl⟩ := Option.map_eq_some_iff.mp h
        rw [hd, ih hy]
        rfl
    | within left value =>
      simp only [piecesFrom] at h ⊢
      obtain ⟨d, hd, h⟩ := Option.bind_eq_some_iff.mp h
      rw [hd, Option.bind_some]
      split_ifs at h ⊢ with hl
      · obtain ⟨y, hy, rfl⟩ := Option.map_eq_some_iff.mp h
        rw [ih hy]
        rfl
      · exact ih h

theorem scanString_append {s : Text} (h : scanString t = some (s, rest)) (w : Text) :
    scanString (t ++ w) = some (s, rest ++ w) := by
  obtain ⟨x, hx, e⟩ := Option.map_eq_some_iff.mp h
  obtain ⟨rfl, rfl⟩ := Prod.mk.inj e
  rw [scanString, pieces, piecesFrom_append hx]
  rfl

theorem shortEscape_ascii {e : ℕ} (h : shortEscape e = some c) : 0x20 ≤ e ∧ e < 0x80 := by
  unfold shortEscape at h
  split_ifs at h
  all_goals omega

theorem hexDigit_ascii {d x : ℕ} (h : hexDigit d = some x) : 0x20 ≤ d ∧ d < 0x80 := by
  unfold hexDigit at h
  split_ifs at h
  all_goals omega

theorem hex4_ascii {a b c d u : ℕ} (h : hex4 a b c d = some u) : ∀ x ∈ [0x5C, 0x75, a, b, c, d], 0x20 ≤ x ∧ x < 0x80 := by
  simp only [hex4, Option.bind_eq_bind, Option.bind_eq_some_iff] at h
  obtain ⟨x, ha, y, hb, z, hc, w, hd, -⟩ := h
  have ha := hexDigit_ascii ha
  have hb := hexDigit_ascii hb
  have hc := hexDigit_ascii hc
  have hd := hexDigit_ascii hd
  simp only [List.forall_mem_cons, List.not_mem_nil, false_implies, implies_true, and_true]
  omega

/-- A character is written as itself, or in printable ASCII. -/
theorem Writes.eq_or_ascii (h : Writes c t) : (t = [c] ∧ 0x20 ≤ c) ∨ ∀ x ∈ t, 0x20 ≤ x ∧ x < 0x80 := by
  cases h with
  | plain hc hq hb => exact .inl ⟨rfl, hc⟩
  | short h =>
    have he := shortEscape_ascii h
    simp only [List.forall_mem_cons, List.not_mem_nil, false_implies, implies_true, and_true]
    omega
  | unit h hu => exact .inr (hex4_ascii h)
  | pair h hu h' hv =>
    refine .inr fun x hx => ?_
    obtain hx | hx := List.mem_append (s := [_, _, _, _, _, _]) |>.mp hx
    · exact hex4_ascii h x hx
    · exact hex4_ascii h' x hx

theorem Writes.mem (h : Writes c t) : ∀ x ∈ t, 0x20 ≤ x ∧ (x = c ∨ x < 0x80) := by
  obtain ⟨rfl, hc⟩ | hall := h.eq_or_ascii
  · intro x hx
    rw [List.mem_singleton.mp hx]
    exact ⟨hc, .inl rfl⟩
  · exact fun x hx => ⟨(hall x hx).1, .inr (hall x hx).2⟩

theorem WritesAll.mem (h : WritesAll cs t) : ∀ x ∈ t, 0x20 ≤ x ∧ (x ∈ cs ∨ x < 0x80) := by
  induction h with
  | nil => exact fun x hx => by cases hx
  | cons hc hs ih =>
    intro x hx
    obtain hx | hx := List.mem_append.mp hx
    · obtain ⟨hx, rfl | hx'⟩ := hc.mem x hx
      · exact ⟨hx, .inl List.mem_cons_self⟩
      · exact ⟨hx, .inr hx'⟩
    · exact ⟨(ih x hx).1, (ih x hx).2.imp_left fun h => List.mem_cons_of_mem _ h⟩

/-- What is not ASCII stands for itself: a text that has any of it is written up
to the first of it. -/
theorem WritesAll.split {p : ℕ → Bool} (hp : ∀ x, 0x20 ≤ x → x < 0x80 → p x = false) (h : WritesAll cs t)
    (hx : ∃ x ∈ t, p x = true) : ∃ as v s w, t = v ++ s :: w ∧ WritesAll as v ∧ (∀ x ∈ v, p x = false) ∧
      p s = true ∧ s ∈ cs := by
  induction h with
  | nil =>
    obtain ⟨x, hx, -⟩ := hx
    cases hx
  | @cons c cs t ts hc hs ih =>
    by_cases hpc : p c = true ∧ t = [c]
    · obtain ⟨hpc, rfl⟩ := hpc
      exact ⟨[], [], c, ts, rfl, .nil, fun _ h => (by cases h), hpc, List.mem_cons_self⟩
    · have ht : ∀ x ∈ t, p x = false := by
        obtain ⟨rfl, -⟩ | hall := hc.eq_or_ascii
        · intro x hx
          rw [List.mem_singleton.mp hx]
          exact Bool.eq_false_iff.mpr fun e => hpc ⟨e, rfl⟩
        · exact fun x hx => hp x (hall x hx).1 (hall x hx).2
      obtain ⟨x, hx, hpx⟩ := hx
      have hts : x ∈ ts := (List.mem_append.mp hx).resolve_left fun h => by
        rw [ht x h] at hpx
        cases hpx
      obtain ⟨as, v, s, w, rfl, hv, hpv, hps, hmem⟩ := ih ⟨x, hts, hpx⟩
      refine ⟨c :: as, t ++ v, s, w, (List.append_assoc ..).symm, .cons hc hv, fun y hy => ?_, hps,
        List.mem_cons_of_mem c hmem⟩
      exact (List.mem_append.mp hy).elim (ht y) (hpv y)

end

/-! ## Objects of one member -/

def Blank (text : Text) : Prop := ∀ c ∈ text, isBlank c = true

/-- An object up to its first string value, opened. -/
def opening (b₁ key b₂ b₃ : Text) : Text := 0x7B :: (b₁ ++ 0x22 :: (key ++ 0x22 :: (b₂ ++ 0x3A :: (b₃ ++ [0x22]))))

/-- The ways to write an object of one member, a string. -/
inductive WritesMember (name value : Text) : Text → Prop
  | mk {b₀ b₁ b₂ b₃ b₄ b₅ key text : Text} (h₀ : Blank b₀) (h₁ : Blank b₁) (h₂ : Blank b₂) (h₃ : Blank b₃)
    (h₄ : Blank b₄) (h₅ : Blank b₅) (hk : WritesAll name key) (hv : WritesAll value text) :
    WritesMember name value (b₀ ++ (opening b₁ key b₂ b₃ ++ (text ++ 0x22 :: (b₄ ++ 0x7D :: b₅))))

section

variable {b t : Text} {c : ℕ}

theorem skipBlank_append (hb : Blank b) (hc : isBlank c = false) (rest : Text) :
    skipBlank (b ++ c :: rest) = c :: rest := by
  rw [skipBlank, List.dropWhile_append_of_pos hb, List.dropWhile_cons_of_neg (by rw [hc]; exact Bool.false_ne_true)]

theorem expect_self (c : ℕ) (rest : Text) : expect c (c :: rest) = some rest := if_pos rfl

theorem expect_ne {c d : ℕ} (h : d ≠ c) (rest : Text) : expect c (d :: rest) = none :=
  if_neg fun e => h (Option.some.inj e)

end

section

variable {b₁ b₂ b₃ b₄ key name s t : Text} {n : ℕ}

theorem scanValue_quote (n : ℕ) (t : Text) :
    scanValue (n + 1) (0x22 :: t) = match scanString t with
      | none => .error .malformed
      | some (s, rest) => .ok (.str s, rest) := by
  rw [scanValue, if_pos rfl]

theorem scanValue_brace (n : ℕ) {rest : Text} (h : expect 0x7D (skipBlank rest) = none) :
    scanValue (n + 1) (0x7B :: rest) = (scanMembers n (skipBlank rest)).map fun x => (.object x.1, x.2) := by
  rw [scanValue, if_neg (by decide), if_pos rfl, h]

/-- The reader comes to the value of the first member. -/
theorem scanMembers_key (h₂ : Blank b₂) (h₃ : Blank b₃) (hk : WritesAll name key) :
    scanMembers (n + 1) (0x22 :: (key ++ 0x22 :: (b₂ ++ 0x3A :: (b₃ ++ 0x22 :: t)))) =
      match scanValue n (0x22 :: t) with
      | .error e => .error e
      | .ok (v, rest) =>
        match expect 0x7D (skipBlank rest) with
        | some rest => .ok ([(name, v)], rest)
        | none =>
          match expect 0x2C (skipBlank rest) with
          | none => .error .malformed
          | some rest => (scanMembers n (skipBlank rest)).map fun x => ((name, v) :: x.1, x.2) := by
  have hkey (rest : Text) : scanString (key ++ 0x22 :: rest) = some (name, rest) := by
    rw [scanString_writesAll hk, scanString_close, Option.map_some, List.append_nil]
  rw [scanMembers, expect_self, Option.bind_some, hkey]
  simp only [skipBlank_append h₂ (show isBlank 0x3A = false from rfl), expect_self,
    skipBlank_append h₃ (show isBlank 0x22 = false from rfl)]

theorem scanValue_opening (h₁ : Blank b₁) (n : ℕ) :
    scanValue (n + 1) (opening b₁ key b₂ b₃ ++ t) =
      (scanMembers n (0x22 :: (key ++ 0x22 :: (b₂ ++ 0x3A :: (b₃ ++ 0x22 :: t))))).map fun x => (.object x.1, x.2) := by
  have hskip (rest : Text) : skipBlank (b₁ ++ 0x22 :: rest) = 0x22 :: rest := skipBlank_append h₁ rfl _
  simp only [opening, List.cons_append, List.append_assoc, List.nil_append]
  rw [scanValue_brace, hskip]
  rw [hskip]
  exact expect_ne (by decide) _

/-- An object that breaks off in its first value. -/
theorem scanValue_unclosed (h₁ : Blank b₁) (h₂ : Blank b₂) (h₃ : Blank b₃) (hk : WritesAll name key) (n : ℕ)
    (h : scanString t = none) : scanValue (n + 3) (opening b₁ key b₂ b₃ ++ t) = .error .malformed := by
  rw [scanValue_opening h₁, scanMembers_key h₂ h₃ hk, scanValue_quote, h]
  rfl

/-- An object of one member. -/
theorem scanValue_member (h₁ : Blank b₁) (h₂ : Blank b₂) (h₃ : Blank b₃) (h₄ : Blank b₄) (hk : WritesAll name key)
    (n : ℕ) {rest : Text} (h : scanString t = some (s, b₄ ++ 0x7D :: rest)) :
    scanValue (n + 3) (opening b₁ key b₂ b₃ ++ t) = .ok (.object [(name, .str s)], rest) := by
  rw [scanValue_opening h₁, scanMembers_key h₂ h₃ hk, scanValue_quote, h]
  simp only [skipBlank_append h₄ (show isBlank 0x7D = false from rfl), expect_self]
  rfl

/-- The reader of a text is allowed more calls than the opening takes. -/
theorem loads_opening (b₁ key b₂ b₃ t : Text) : ∃ n, loads (opening b₁ key b₂ b₃ ++ t) =
    match scanValue (n + 3) (opening b₁ key b₂ b₃ ++ t) with
    | .error e => .error e
    | .ok (v, rest) => if skipBlank rest = [] then .ok v else .error .malformed := by
  have hskip : skipBlank (opening b₁ key b₂ b₃ ++ t) = opening b₁ key b₂ b₃ ++ t :=
    skipBlank_append (b := []) (fun _ h => by cases h) rfl _
  have hhead : (opening b₁ key b₂ b₃ ++ t).head? ≠ some 0xFEFF := fun e => by cases e
  have hlength : 2 * (opening b₁ key b₂ b₃ ++ t).length + 2 = (2 * (opening b₁ key b₂ b₃ ++ t).length - 1) + 3 := by
    simp only [opening, List.length_append, List.length_cons]
    omega
  refine ⟨2 * (opening b₁ key b₂ b₃ ++ t).length - 1, ?_⟩
  rw [loads, if_neg hhead, hskip, hlength]

/-- What breaks off in the first string is refused. -/
theorem loads_unclosed (h₁ : Blank b₁) (h₂ : Blank b₂) (h₃ : Blank b₃) (hk : WritesAll name key)
    (h : scanString t = none) : loads (opening b₁ key b₂ b₃ ++ t) = .error .malformed := by
  obtain ⟨n, hn⟩ := loads_opening b₁ key b₂ b₃ t
  rw [hn, scanValue_unclosed h₁ h₂ h₃ hk n h]

/-- An object of one member, a string, is read as that. -/
theorem loads_member (h₁ : Blank b₁) (h₂ : Blank b₂) (h₃ : Blank b₃) (h₄ : Blank b₄) (hk : WritesAll name key)
    (hv : WritesAll s t) :
    loads (opening b₁ key b₂ b₃ ++ (t ++ 0x22 :: (b₄ ++ [0x7D]))) = .ok (.object [(name, .str s)]) := by
  have hs : scanString (t ++ 0x22 :: (b₄ ++ [0x7D])) = some (s, b₄ ++ [0x7D]) := by
    rw [scanString_writesAll hv, scanString_close, Option.map_some, List.append_nil]
  obtain ⟨n, hn⟩ := loads_opening b₁ key b₂ b₃ (t ++ 0x22 :: (b₄ ++ [0x7D]))
  rw [hn, scanValue_member h₁ h₂ h₃ h₄ hk n hs]
  rfl

end

end Json
