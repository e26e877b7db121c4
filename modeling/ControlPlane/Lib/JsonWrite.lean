import ControlPlane.Lib.Numeral

/-!
# Writing JSON

Values as Python's `json.dumps` writes them (`dumps`): in ASCII, with `, `
between the parts and `: ` after a key. `loads_dumps`: what is written of a
value, however deep, is read as that value, if its texts are Unicode and its
numbers are numerals (`Writable`).
-/

namespace Json

open Utf8

/-! ## Strings -/

/-- A hexadecimal digit. -/
def hexPoint (x : ℕ) : ℕ := if x < 10 then 0x30 + x else 0x61 + (x - 10)

/-- The escape of a code unit. -/
def unitEscape (u : ℕ) : Text :=
  [0x5C, 0x75, hexPoint (u / 0x1000), hexPoint (u / 0x100 % 0x10), hexPoint (u / 0x10 % 0x10), hexPoint (u % 0x10)]

def writeChar (c : ℕ) : Text :=
  if c = 0x22 then [0x5C, 0x22]
  else if c = 0x5C then [0x5C, 0x5C]
  else if c = 0x0A then [0x5C, 0x6E]
  else if c = 0x0D then [0x5C, 0x72]
  else if c = 0x09 then [0x5C, 0x74]
  else if c = 0x0C then [0x5C, 0x66]
  else if c = 0x08 then [0x5C, 0x62]
  else if 0x20 ≤ c ∧ c ≤ 0x7E then [c]
  else if c < 0x10000 then unitEscape c
  else unitEscape (0xD800 + (c - 0x10000) / 0x400) ++ unitEscape (0xDC00 + (c - 0x10000) % 0x400)

/-- A text without the quote that closes it. -/
def writeText (s : Text) : Text := s.flatMap writeChar

theorem hexDigit_hexPoint {x : ℕ} (hx : x < 16) : hexDigit (hexPoint x) = some x := by
  unfold hexPoint hexDigit
  split_ifs
  all_goals first | omega | (congr 1; omega)

theorem hex4_unitEscape {u : ℕ} (hu : u < 0x10000) :
    hex4 (hexPoint (u / 0x1000)) (hexPoint (u / 0x100 % 0x10)) (hexPoint (u / 0x10 % 0x10)) (hexPoint (u % 0x10)) =
      some u := by
  rw [hex4, hexDigit_hexPoint (by omega), hexDigit_hexPoint (by omega), hexDigit_hexPoint (by omega),
    hexDigit_hexPoint (by omega)]
  simp only [Option.bind_eq_bind, Option.bind_some, Option.pure_def, Option.some.injEq]
  omega

theorem writes_writeChar {c : ℕ} (hc : Scalar c) : Writes c (writeChar c) := by
  unfold writeChar
  split_ifs with hq hb h1 h2 h3 h4 h5 hp hu
  · rw [hq]
    exact .short rfl
  · rw [hb]
    exact .short rfl
  · rw [h1]
    exact .short rfl
  · rw [h2]
    exact .short rfl
  · rw [h3]
    exact .short rfl
  · rw [h4]
    exact .short rfl
  · rw [h5]
    exact .short rfl
  · exact .plain hp.1 hq hb
  · exact .unit (hex4_unitEscape hu) hc
  · have hlt : c < 0x110000 := by
      rcases hc with h | h
      · omega
      · exact h.2
    have hpair : pairOf (0xD800 + (c - 0x10000) / 0x400) (0xDC00 + (c - 0x10000) % 0x400) = c := by
      unfold pairOf
      omega
    have hw : Writes (pairOf _ _) _ := .pair (hex4_unitEscape (show 0xD800 + (c - 0x10000) / 0x400 < 0x10000 by omega))
      ⟨by omega, by omega⟩ (hex4_unitEscape (show 0xDC00 + (c - 0x10000) % 0x400 < 0x10000 by omega)) ⟨by omega, by omega⟩
    rw [hpair] at hw
    exact hw

theorem writesAll_writeText {s : Text} (hs : ∀ c ∈ s, Scalar c) : WritesAll s (writeText s) := by
  induction s with
  | nil => exact .nil
  | cons c s ih =>
    exact .cons (writes_writeChar (hs c List.mem_cons_self)) (ih fun x hx => hs x (List.mem_cons_of_mem c hx))

/-- A text in a string is read up to the quote. -/
theorem scanString_writeText {s : Text} (hs : ∀ c ∈ s, Scalar c) (rest : Text) :
    scanString (writeText s ++ 0x22 :: rest) = some (s, rest) := by
  rw [scanString_writesAll (writesAll_writeText hs), scanString_close, Option.map_some, List.append_nil]

/-! ## Values -/

mutual

def dumps : Value → Text
  | .null => points "null"
  | .bool b => if b then points "true" else points "false"
  | .number lexeme => lexeme
  | .str s => 0x22 :: (writeText s ++ [0x22])
  | .array vs => 0x5B :: dumpsElements true vs
  | .object members => 0x7B :: dumpsMembers true members

/-- The elements from here on, and the bracket. -/
def dumpsElements : Bool → List Value → Text
  | _, [] => [0x5D]
  | first, v :: vs => (if first then [] else [0x2C, 0x20]) ++ (dumps v ++ dumpsElements false vs)

/-- The members from here on, and the brace. -/
def dumpsMembers : Bool → List (Text × Value) → Text
  | _, [] => [0x7D]
  | first, (key, v) :: members =>
    (if first then [] else [0x2C, 0x20]) ++
      (0x22 :: (writeText key ++ 0x22 :: 0x3A :: 0x20 :: (dumps v ++ dumpsMembers false members)))

end

/-- The text of a number. -/
inductive Lexeme : Text → Prop
  | numeral {n : Numeral} (hn : n.Valid) (hs : n.Short) : Lexeme n.lexeme
  | word {t : Text} (ht : t ∈ ["NaN", "Infinity", "-Infinity"].map points) : Lexeme t

/-- A value whose texts are Unicode and whose numbers are numerals. -/
inductive Writable : Value → Prop
  | null : Writable .null
  | bool (b : Bool) : Writable (.bool b)
  | number {t : Text} (ht : Lexeme t) : Writable (.number t)
  | str {s : Text} (hs : ∀ c ∈ s, Scalar c) : Writable (.str s)
  | array {vs : List Value} (hvs : ∀ v ∈ vs, Writable v) : Writable (.array vs)
  | object {members : List (Text × Value)} (hk : ∀ m ∈ members, ∀ c ∈ m.1, Scalar c)
    (hv : ∀ m ∈ members, Writable m.2) : Writable (.object members)

/-- Allowed as many calls as it is long, the reader takes the value from its text. -/
def Reads (v : Value) : Prop :=
  ∀ (n : ℕ) (rest : Text), (dumps v).length ≤ n → Ends rest → scanValue n (dumps v ++ rest) = .ok (v, rest)

/-! ## Words and numbers -/

section

variable {t rest : Text}

/-- A text that starts no string, object, array or word. -/
theorem scanValue_number {c : ℕ} (n : ℕ) (hq : c ≠ 0x22) (hb : c ≠ 0x7B) (ha : c ≠ 0x5B) (hw : scanWord (c :: t) = none) :
    scanValue (n + 1) (c :: t) = scanNumber (c :: t) := by
  rw [scanValue, if_neg hq, if_neg hb, if_neg ha]
  simp only [hw]

theorem scanWord_digit {d : ℕ} (hd : d < 10) (t : Text) :
    scanWord (digitPoint d :: t) = none ∧ scanWord (0x2D :: digitPoint d :: t) = none := by
  have hd : d = 0 ∨ d = 1 ∨ d = 2 ∨ d = 3 ∨ d = 4 ∨ d = 5 ∨ d = 6 ∨ d = 7 ∨ d = 8 ∨ d = 9 := by omega
  rcases hd with rfl | rfl | rfl | rfl | rfl | rfl | rfl | rfl | rfl | rfl <;> exact ⟨rfl, rfl⟩

/-- A numeral starts with a digit, or a sign and a digit. -/
theorem lexeme_head {n : Numeral} (hn : n.Valid) :
    ∃ d t, d < 10 ∧ (n.lexeme = digitPoint d :: t ∨ n.lexeme = 0x2D :: digitPoint d :: t) := by
  obtain ⟨d, ds, h⟩ : ∃ d ds, n.int = d :: ds := by
    rcases hn.int with h | ⟨d, ds, h, -⟩
    · exact ⟨0, [], h⟩
    · exact ⟨d, ds, h⟩
  have hd := hn.int_lt d (h ▸ List.mem_cons_self)
  refine ⟨d, ds.map digitPoint ++ (n.fracText ++ n.expText), hd, ?_⟩
  rw [Numeral.lexeme, Numeral.intText, h]
  cases n.minus with
  | true => exact .inr rfl
  | false => exact .inl rfl

theorem scanValue_lexeme (ht : Lexeme t) (n : ℕ) (hr : Ends rest) :
    scanValue (n + 1) (t ++ rest) = .ok (.number t, rest) := by
  cases ht with
  | @numeral m hm hs =>
    have hnumber := scanNumber_lexeme hm hs hr
    obtain ⟨d, t, hd, h | h⟩ := lexeme_head hm
    · have hne : ∀ c ∈ [0x22, 0x7B, 0x5B], digitPoint d ≠ c := by
        intro c hc
        simp only [List.mem_cons, List.not_mem_nil, or_false] at hc
        simp only [digitPoint]
        omega
      rw [h, List.cons_append] at hnumber ⊢
      rw [scanValue_number n (hne _ (by decide)) (hne _ (by decide)) (hne _ (by decide)) (scanWord_digit hd _).1]
      exact hnumber
    · rw [h, List.cons_append, List.cons_append] at hnumber ⊢
      rw [scanValue_number n (by decide) (by decide) (by decide) (scanWord_digit hd _).2]
      exact hnumber
  | word ht =>
    simp only [List.map_cons, List.map_nil, List.mem_cons, List.not_mem_nil, or_false] at ht
    rcases ht with rfl | rfl | rfl
    · rfl
    · rfl
    · rfl

/-- What a value's text starts with. -/
theorem dumps_head {v : Value} (hv : Writable v) :
    ∃ c t, dumps v = c :: t ∧ isBlank c = false ∧ c ≠ 0x5D ∧ c ≠ 0xFEFF := by
  cases hv with
  | null => exact ⟨_, _, rfl, rfl, by decide, by decide⟩
  | bool b =>
    cases b with
    | true => exact ⟨_, _, rfl, rfl, by decide, by decide⟩
    | false => exact ⟨_, _, rfl, rfl, by decide, by decide⟩
  | number ht =>
    rw [dumps]
    cases ht with
    | @numeral m hm hs =>
      obtain ⟨d, t, hd, h | h⟩ := lexeme_head hm
      · refine ⟨_, _, h, ?_, ?_, ?_⟩
        · have hd : d = 0 ∨ d = 1 ∨ d = 2 ∨ d = 3 ∨ d = 4 ∨ d = 5 ∨ d = 6 ∨ d = 7 ∨ d = 8 ∨ d = 9 := by omega
          rcases hd with rfl | rfl | rfl | rfl | rfl | rfl | rfl | rfl | rfl | rfl <;> rfl
        · simp only [digitPoint]
          omega
        · simp only [digitPoint]
          omega
      · exact ⟨_, _, h, rfl, by decide, by decide⟩
    | word ht =>
      simp only [List.map_cons, List.map_nil, List.mem_cons, List.not_mem_nil, or_false] at ht
      rcases ht with rfl | rfl | rfl
      · exact ⟨_, _, rfl, rfl, by decide, by decide⟩
      · exact ⟨_, _, rfl, rfl, by decide, by decide⟩
      · exact ⟨_, _, rfl, rfl, by decide, by decide⟩
  | str hs => exact ⟨_, _, by rw [dumps], rfl, by decide, by decide⟩
  | array hvs => exact ⟨_, _, by rw [dumps], rfl, by decide, by decide⟩
  | object hk hv => exact ⟨_, _, by rw [dumps], rfl, by decide, by decide⟩

theorem skipBlank_dumps {v : Value} (hv : Writable v) (rest : Text) : skipBlank (dumps v ++ rest) = dumps v ++ rest := by
  obtain ⟨c, t, h, hc, -, -⟩ := dumps_head hv
  rw [h]
  exact skipBlank_append (b := []) (List.forall_mem_nil _) hc _

/-- The separator and the value after it. -/
theorem skipBlank_next {v : Value} (hv : Writable v) (rest : Text) :
    skipBlank (0x20 :: (dumps v ++ rest)) = dumps v ++ rest := by
  rw [skipBlank, List.dropWhile_cons_of_pos (by rfl)]
  exact skipBlank_dumps hv rest

end

/-! ## Arrays and objects -/

section

variable {rest : Text}

theorem ends_elements (vs : List Value) (rest : Text) : Ends (dumpsElements false vs ++ rest) := by
  intro c hc
  cases vs with
  | nil =>
    cases hc
    decide
  | cons v vs =>
    rw [dumpsElements] at hc
    cases hc
    decide

theorem ends_members (members : List (Text × Value)) (rest : Text) : Ends (dumpsMembers false members ++ rest) := by
  intro c hc
  cases members with
  | nil =>
    cases hc
    decide
  | cons m members =>
    rw [dumpsMembers] at hc
    cases hc
    decide

theorem length_elements (vs : List Value) : 1 ≤ (dumpsElements false vs).length := by
  cases vs with
  | nil => exact le_rfl
  | cons v vs =>
    rw [dumpsElements]
    exact Nat.succ_pos _

theorem scanElements_dumps {v : Value} {vs : List Value} (hw : ∀ x ∈ v :: vs, Writable x) (hr : ∀ x ∈ v :: vs, Reads x)
    {n : ℕ} (hn : (dumps v ++ dumpsElements false vs).length ≤ n) :
    scanElements n (dumps v ++ (dumpsElements false vs ++ rest)) = .ok (v :: vs, rest) := by
  induction vs generalizing v n with
  | nil =>
    rw [dumpsElements, List.length_append, List.length_singleton] at hn
    obtain ⟨n, rfl⟩ : ∃ m, n = m + 1 := ⟨n - 1, by omega⟩
    have hv := hr v List.mem_cons_self n _ (by omega) (ends_elements [] rest)
    rw [scanElements, hv]
    rfl
  | cons w ws ih =>
    have hlen := length_elements (w :: ws)
    rw [List.length_append] at hn
    obtain ⟨n, rfl⟩ : ∃ m, n = m + 1 := ⟨n - 1, by omega⟩
    have hv := hr v List.mem_cons_self n _ (by omega) (ends_elements (w :: ws) rest)
    have hws := ih (fun x hx => hw x (List.mem_cons_of_mem v hx)) (fun x hx => hr x (List.mem_cons_of_mem v hx)) (n := n) (by
      rw [dumpsElements] at hn
      simp only [List.length_append, Bool.false_eq_true, if_false, List.length_cons] at hn ⊢
      omega)
    have htext : dumpsElements false (w :: ws) ++ rest = 0x2C :: 0x20 :: (dumps w ++ (dumpsElements false ws ++ rest)) := by
      rw [dumpsElements]
      simp
    rw [scanElements, hv, htext]
    -- a comma is no bracket
    show (scanElements n (skipBlank (0x20 :: (dumps w ++ (dumpsElements false ws ++ rest))))).map _ = _
    rw [skipBlank_next (hw w (List.mem_cons_of_mem v List.mem_cons_self)), hws]
    rfl

/-- The last member. -/
theorem scanMembers_last {key t rest rest' : Text} {v : Value} {n : ℕ} (hk : ∀ c ∈ key, Scalar c) (hv : Writable v)
    (hs : scanValue n (dumps v ++ t) = .ok (v, rest)) (hclose : expect 0x7D (skipBlank rest) = some rest') :
    scanMembers (n + 1) (0x22 :: (writeText key ++ 0x22 :: 0x3A :: 0x20 :: (dumps v ++ t))) = .ok ([(key, v)], rest') := by
  have hcolon : expect 0x3A (skipBlank (0x3A :: 0x20 :: (dumps v ++ t))) = some (0x20 :: (dumps v ++ t)) := rfl
  rw [scanMembers, expect_self, Option.bind_some, scanString_writeText hk]
  simp only [hcolon, skipBlank_next hv, hs, hclose]

/-- A member after which there are others. -/
theorem scanMembers_next {key t rest rest' : Text} {v : Value} {n : ℕ} (hk : ∀ c ∈ key, Scalar c) (hv : Writable v)
    (hs : scanValue n (dumps v ++ t) = .ok (v, rest)) (hclose : expect 0x7D (skipBlank rest) = none)
    (hcomma : expect 0x2C (skipBlank rest) = some rest') :
    scanMembers (n + 1) (0x22 :: (writeText key ++ 0x22 :: 0x3A :: 0x20 :: (dumps v ++ t))) =
      (scanMembers n (skipBlank rest')).map fun x => ((key, v) :: x.1, x.2) := by
  have hcolon : expect 0x3A (skipBlank (0x3A :: 0x20 :: (dumps v ++ t))) = some (0x20 :: (dumps v ++ t)) := rfl
  rw [scanMembers, expect_self, Option.bind_some, scanString_writeText hk]
  simp only [hcolon, skipBlank_next hv, hs, hclose, hcomma]

/-- A member, and those after it. -/
theorem dumpsMembers_cons (first : Bool) (key : Text) (v : Value) (members : List (Text × Value)) (rest : Text) :
    dumpsMembers first ((key, v) :: members) ++ rest = (if first then [] else [0x2C, 0x20]) ++
      (0x22 :: (writeText key ++ 0x22 :: 0x3A :: 0x20 :: (dumps v ++ (dumpsMembers false members ++ rest)))) := by
  rw [dumpsMembers]
  simp only [List.append_assoc, List.cons_append]

theorem length_members_cons (first : Bool) (key : Text) (v : Value) (members : List (Text × Value)) :
    (dumpsMembers first ((key, v) :: members)).length = (if first then 0 else 2) + 4 + (writeText key).length +
      (dumps v).length + (dumpsMembers false members).length := by
  rw [dumpsMembers]
  cases first with
  | true =>
    simp only [if_true, List.nil_append, List.length_cons, List.length_append]
    omega
  | false =>
    simp only [Bool.false_eq_true, if_false, List.length_cons, List.length_append, List.length_nil]
    omega

theorem scanMembers_dumps {key : Text} {v : Value} {members : List (Text × Value)}
    (hk : ∀ x ∈ (key, v) :: members, ∀ c ∈ x.1, Scalar c) (hw : ∀ x ∈ (key, v) :: members, Writable x.2)
    (hr : ∀ x ∈ (key, v) :: members, Reads x.2) {n : ℕ} (hn : (dumpsMembers true ((key, v) :: members)).length ≤ n) :
    scanMembers n (dumpsMembers true ((key, v) :: members) ++ rest) = .ok ((key, v) :: members, rest) := by
  induction members generalizing key v n with
  | nil =>
    rw [length_members_cons, if_pos rfl] at hn
    obtain ⟨n, rfl⟩ : ∃ m, n = m + 1 := ⟨n - 1, by omega⟩
    have hv := hr _ List.mem_cons_self n _ (by simp only; omega) (ends_members [] rest)
    rw [dumpsMembers_cons, if_pos rfl, List.nil_append]
    exact scanMembers_last (hk _ List.mem_cons_self) (hw _ List.mem_cons_self) hv rfl
  | cons m members ih =>
    obtain ⟨key', v'⟩ := m
    have hlen := length_members_cons false key' v' members
    have hlen' := length_members_cons true key' v' members
    rw [if_neg Bool.false_ne_true] at hlen
    rw [length_members_cons, if_pos rfl] at hn
    rw [if_pos rfl] at hlen'
    obtain ⟨n, rfl⟩ : ∃ m, n = m + 1 := ⟨n - 1, by omega⟩
    have hv := hr _ List.mem_cons_self n _ (by simp only; omega) (ends_members ((key', v') :: members) rest)
    have htail := ih (fun x hx => hk x (List.mem_cons_of_mem _ hx)) (fun x hx => hw x (List.mem_cons_of_mem _ hx))
      (fun x hx => hr x (List.mem_cons_of_mem _ hx)) (n := n) (by omega)
    rw [dumpsMembers_cons, if_pos rfl, List.nil_append] at htail
    -- a comma is no brace, and a quote no blank
    have htext : dumpsMembers false ((key', v') :: members) ++ rest = 0x2C :: 0x20 :: (0x22 :: (writeText key' ++
        0x22 :: 0x3A :: 0x20 :: (dumps v' ++ (dumpsMembers false members ++ rest)))) := by
      rw [dumpsMembers_cons, if_neg Bool.false_ne_true]
      rfl
    rw [htext] at hv
    rw [dumpsMembers_cons, if_pos rfl, List.nil_append, htext,
      scanMembers_next (hk _ List.mem_cons_self) (hw _ List.mem_cons_self) hv rfl rfl]
    show (scanMembers n (0x22 :: _)).map _ = _
    rw [htail]
    rfl

/-- A value is written in a character at least. -/
theorem Reads.intro {v : Value} (hv : Writable v) (h : ∀ (n : ℕ) (rest : Text), (dumps v).length ≤ n + 1 → Ends rest →
    scanValue (n + 1) (dumps v ++ rest) = .ok (v, rest)) : Reads v := by
  intro n rest hn hr
  obtain ⟨c, t, htext, -, -, -⟩ := dumps_head hv
  obtain ⟨n, rfl⟩ : ∃ m, n = m + 1 := ⟨n - 1, by rw [htext, List.length_cons] at hn; omega⟩
  exact h n rest hn hr

theorem reads_array {vs : List Value} (hw : ∀ x ∈ vs, Writable x) (hr : ∀ x ∈ vs, Reads x) : Reads (.array vs) := by
  refine Reads.intro (.array hw) fun n rest hn _ => ?_
  cases vs with
  | nil => rfl
  | cons v vs =>
    have hv := hw v List.mem_cons_self
    have hlen : (dumps v ++ dumpsElements false vs).length ≤ n := by
      rw [dumps, dumpsElements, if_pos rfl, List.nil_append, List.length_cons] at hn
      exact Nat.le_of_succ_le_succ hn
    have hopen : expect 0x5D (dumps v ++ (dumpsElements false vs ++ rest)) = none := by
      obtain ⟨c, t, h, -, hc, -⟩ := dumps_head hv
      rw [h]
      exact expect_ne hc _
    rw [dumps, dumpsElements, if_pos rfl, List.nil_append, List.cons_append, List.append_assoc, scanValue,
      if_neg (by decide), if_neg (by decide), if_pos rfl]
    simp only [skipBlank_dumps hv, hopen, scanElements_dumps hw hr hlen]
    rfl

theorem reads_object {members : List (Text × Value)} (hk : ∀ x ∈ members, ∀ c ∈ x.1, Scalar c)
    (hw : ∀ x ∈ members, Writable x.2) (hr : ∀ x ∈ members, Reads x.2) : Reads (.object members) := by
  refine Reads.intro (.object hk hw) fun n rest hn _ => ?_
  cases members with
  | nil => rfl
  | cons m members =>
    obtain ⟨key, v⟩ := m
    have hlen : (dumpsMembers true ((key, v) :: members)).length ≤ n := by
      rw [dumps, List.length_cons] at hn
      exact Nat.le_of_succ_le_succ hn
    have hmembers : scanMembers n (_ ++ rest) = _ := scanMembers_dumps hk hw hr hlen
    rw [dumps, List.cons_append]
    rw [dumpsMembers_cons, if_pos rfl, List.nil_append] at hmembers ⊢
    -- a quote is neither a brace nor a blank
    rw [scanValue_brace n rfl]
    show (scanMembers n (0x22 :: _)).map _ = _
    rw [hmembers]
    rfl

/-- What is written of a value is read as that value. -/
theorem reads_dumps {v : Value} (hv : Writable v) : Reads v := by
  induction hv with
  | null => exact Reads.intro .null fun n rest _ _ => rfl
  | bool b =>
    cases b with
    | true => exact Reads.intro (.bool true) fun n rest _ _ => rfl
    | false => exact Reads.intro (.bool false) fun n rest _ _ => rfl
  | number ht =>
    refine Reads.intro (.number ht) fun n rest _ hr => ?_
    rw [dumps]
    exact scanValue_lexeme ht n hr
  | str hs =>
    refine Reads.intro (.str hs) fun n rest _ hr => ?_
    rw [dumps, List.cons_append, List.append_assoc, scanValue_quote, List.singleton_append, scanString_writeText hs]
  | array hvs ih => exact reads_array hvs ih
  | object hk hv ih => exact reads_object hk hv ih

end

/-- The round trip. -/
theorem loads_dumps {v : Value} (hv : Writable v) : loads (dumps v) = .ok v := by
  obtain ⟨c, t, h, -, -, hc⟩ := dumps_head hv
  have hhead : (dumps v).head? ≠ some 0xFEFF := by
    rw [h]
    exact fun e => hc (Option.some.inj e)
  have hblank := skipBlank_dumps hv []
  have hreads := reads_dumps hv (2 * (dumps v).length + 2) [] (by omega) fun c hc => by cases hc
  rw [List.append_nil] at hblank hreads
  rw [loads, if_neg hhead, hblank, hreads]
  rfl

/-! ## ASCII -/

/-- ASCII that prints. -/
def Printable (text : Text) : Prop := ∀ c ∈ text, 0x20 ≤ c ∧ c < 0x7F

section

variable {s t : Text}

theorem Printable.append (hs : Printable s) (ht : Printable t) : Printable (s ++ t) := List.forall_mem_append.mpr ⟨hs, ht⟩

theorem Printable.cons {c : ℕ} (hc : 0x20 ≤ c ∧ c < 0x7F) (ht : Printable t) : Printable (c :: t) :=
  List.forall_mem_cons.mpr ⟨hc, ht⟩

theorem printable_unitEscape {u : ℕ} (hu : u < 0x10000) : Printable (unitEscape u) := by
  have hdigit : ∀ x < 16, 0x20 ≤ hexPoint x ∧ hexPoint x < 0x7F := by decide
  have hnil : Printable [] := List.forall_mem_nil _
  exact .cons (by decide) (.cons (by decide) (.cons (hdigit _ (by omega)) (.cons (hdigit _ (by omega))
    (.cons (hdigit _ (by omega)) (.cons (hdigit _ (by omega)) hnil)))))

theorem printable_writeText (hs : ∀ c ∈ s, Scalar c) : Printable (writeText s) := by
  intro x hx
  obtain ⟨c, hc, hx⟩ := List.mem_flatMap.mp hx
  have hlt : c < 0x110000 := by
    rcases hs c hc with h | h
    · omega
    · exact h.2
  refine (show Printable (writeChar c) from ?_) x hx
  unfold writeChar
  split_ifs with h1 h2 h3 h4 h5 h6 h7 hp hu
  · unfold Printable; decide
  · unfold Printable; decide
  · unfold Printable; decide
  · unfold Printable; decide
  · unfold Printable; decide
  · unfold Printable; decide
  · unfold Printable; decide
  · exact List.forall_mem_singleton.mpr ⟨hp.1, by omega⟩
  · exact printable_unitEscape hu
  · exact (printable_unitEscape (by omega)).append (printable_unitEscape (by omega))

theorem printable_digits {ds : List ℕ} (h : ∀ d ∈ ds, d < 10) : Printable (ds.map digitPoint) := by
  refine List.forall_mem_map.mpr fun d hd => ?_
  have hd := h d hd
  simp only [digitPoint]
  omega

theorem printable_lexeme (ht : Lexeme t) : Printable t := by
  have hnil : Printable [] := List.forall_mem_nil _
  cases ht with
  | @numeral n hn hs =>
    have hint : Printable n.intText := by
      refine .append ?_ (printable_digits hn.int_lt)
      split
      · exact .cons (by decide) hnil
      · exact hnil
    have hfrac : Printable n.fracText := by
      unfold Numeral.fracText
      split
      · exact hnil
      · exact .cons (by decide) (printable_digits hn.frac_lt)
    have hexp : Printable n.expText := by
      unfold Numeral.expText
      cases he : n.exp with
      | none => exact hnil
      | some e =>
        refine .cons (by decide) (.cons ?_ (printable_digits (hn.exp_lt e he).2))
        split
        · decide
        · decide
    exact hint.append (hfrac.append hexp)
  | word ht =>
    revert t
    unfold Printable
    decide

theorem printable_elements {vs : List Value} (h : ∀ v ∈ vs, Printable (dumps v)) (first : Bool) :
    Printable (dumpsElements first vs) := by
  induction vs generalizing first with
  | nil =>
    rw [dumpsElements]
    exact .cons (by decide) (List.forall_mem_nil _)
  | cons v vs ih =>
    rw [dumpsElements]
    refine .append ?_ ((h v List.mem_cons_self).append (ih (fun x hx => h x (List.mem_cons_of_mem v hx)) false))
    cases first with
    | true => exact List.forall_mem_nil _
    | false => exact .cons (by decide) (.cons (by decide) (List.forall_mem_nil _))

theorem printable_members {members : List (Text × Value)} (hk : ∀ m ∈ members, ∀ c ∈ m.1, Scalar c)
    (h : ∀ m ∈ members, Printable (dumps m.2)) (first : Bool) : Printable (dumpsMembers first members) := by
  induction members generalizing first with
  | nil =>
    rw [dumpsMembers]
    exact .cons (by decide) (List.forall_mem_nil _)
  | cons m members ih =>
    obtain ⟨key, v⟩ := m
    have hrest := ih (fun x hx => hk x (List.mem_cons_of_mem _ hx)) (fun x hx => h x (List.mem_cons_of_mem _ hx)) false
    rw [dumpsMembers]
    refine .append ?_ (.cons (by decide) ((printable_writeText (hk _ List.mem_cons_self)).append (.cons (by decide)
      (.cons (by decide) (.cons (by decide) ((h _ List.mem_cons_self).append hrest))))))
    cases first with
    | true => exact List.forall_mem_nil _
    | false => exact .cons (by decide) (.cons (by decide) (List.forall_mem_nil _))

/-- What is written is ASCII. -/
theorem printable_dumps {v : Value} (hv : Writable v) : Printable (dumps v) := by
  induction hv with
  | null => unfold Printable; decide
  | bool b => cases b <;> (unfold Printable; decide)
  | number ht =>
    rw [dumps]
    exact printable_lexeme ht
  | str hs =>
    rw [dumps]
    exact .cons (by decide) ((printable_writeText hs).append (.cons (by decide) (List.forall_mem_nil _)))
  | array _ ih =>
    rw [dumps]
    exact .cons (by decide) (printable_elements ih true)
  | object hk _ ih =>
    rw [dumps]
    exact .cons (by decide) (printable_members hk ih true)

end

end Json
