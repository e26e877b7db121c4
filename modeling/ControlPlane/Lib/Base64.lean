import Mathlib.Tactic.Common

/-!
# Base64

Bytes as Python's `base64.b64encode` writes them (`encode`), and how
`base64.b64decode` reads a text (`decode`): it passes over what is not of the
alphabet, and stops at the padding that completes a group.
-/

namespace Base64

/-- The code point of a digit below 64. -/
def digit (x : ℕ) : ℕ :=
  if x < 26 then 0x41 + x
  else if x < 52 then 0x61 + (x - 26)
  else if x < 62 then 0x30 + (x - 52)
  else if x = 62 then 0x2B
  else 0x2F

def digit? (c : ℕ) : Option ℕ :=
  if 0x41 ≤ c ∧ c ≤ 0x5A then some (c - 0x41)
  else if 0x61 ≤ c ∧ c ≤ 0x7A then some (c - 0x61 + 26)
  else if 0x30 ≤ c ∧ c ≤ 0x39 then some (c - 0x30 + 52)
  else if c = 0x2B then some 62
  else if c = 0x2F then some 63
  else none

def pad : ℕ := 0x3D

/-- `b64encode`. -/
def encode : List ℕ → List ℕ
  | a :: b :: c :: rest =>
    digit (a / 4) :: digit (a % 4 * 16 + b / 16) :: digit (b % 16 * 4 + c / 64) :: digit (c % 64) :: encode rest
  | [a, b] => [digit (a / 4), digit (a % 4 * 16 + b / 16), digit (b % 16 * 4), pad]
  | [a] => [digit (a / 4), digit (a % 4 * 16), pad, pad]
  | [] => []

/-- The bytes of a text, where a group has been read up to its digit `place`,
`left` is what of it no byte has, and so many pads follow it. -/
def decodeFrom (place left pads : ℕ) : List ℕ → Option (List ℕ)
  | [] => if place = 0 then some [] else none
  | c :: rest =>
    if c = pad then
      if 2 ≤ place then
        if 4 ≤ place + (pads + 1) then some [] else decodeFrom place left (pads + 1) rest
      else decodeFrom place left pads rest
    else
      match digit? c with
      | none => decodeFrom place left pads rest
      | some x =>
        if place = 0 then decodeFrom 1 x 0 rest
        else if place = 1 then (decodeFrom 2 (x % 16) 0 rest).map fun bytes => (left * 4 + x / 16) :: bytes
        else if place = 2 then (decodeFrom 3 (x % 4) 0 rest).map fun bytes => (left * 16 + x / 4) :: bytes
        else (decodeFrom 0 0 0 rest).map fun bytes => (left * 64 + x) :: bytes

/-- `b64decode`; `none` is its error. -/
def decode (text : List ℕ) : Option (List ℕ) := decodeFrom 0 0 0 text

/-! ## The round trip -/

/-- The characters of the alphabet, and the pad. -/
def InAlphabet (c : ℕ) : Prop :=
  (0x41 ≤ c ∧ c ≤ 0x5A) ∨ (0x61 ≤ c ∧ c ≤ 0x7A) ∨ (0x30 ≤ c ∧ c ≤ 0x39) ∨ c = 0x2B ∨ c = 0x2F ∨ c = pad

theorem digit_inAlphabet {x : ℕ} (hx : x < 64) : InAlphabet (digit x) := by
  unfold digit InAlphabet
  split_ifs <;> omega

theorem encode_inAlphabet {bytes : List ℕ} (h : ∀ b ∈ bytes, b < 256) : ∀ c ∈ encode bytes, InAlphabet c := by
  have hpad : InAlphabet pad := .inr (.inr (.inr (.inr (.inr rfl))))
  induction bytes using encode.induct with
  | case1 a b c rest ih =>
    simp only [List.forall_mem_cons] at h
    obtain ⟨ha, hb, hc, hrest⟩ := h
    rw [encode]
    simp only [List.forall_mem_cons]
    exact ⟨digit_inAlphabet (by omega), digit_inAlphabet (by omega), digit_inAlphabet (by omega),
      digit_inAlphabet (by omega), ih hrest⟩
  | case2 a b =>
    simp only [List.forall_mem_cons] at h
    rw [encode]
    simp only [List.forall_mem_cons]
    exact ⟨digit_inAlphabet (by omega), digit_inAlphabet (by omega), digit_inAlphabet (by omega), hpad,
      List.forall_mem_nil _⟩
  | case3 a =>
    simp only [List.forall_mem_cons] at h
    rw [encode]
    simp only [List.forall_mem_cons]
    exact ⟨digit_inAlphabet (by omega), digit_inAlphabet (by omega), hpad, hpad, List.forall_mem_nil _⟩
  | case4 => exact List.forall_mem_nil _

theorem digit?_digit {x : ℕ} (hx : x < 64) : digit? (digit x) = some x := by
  unfold digit digit?
  split_ifs
  all_goals first | omega | (congr 1; omega)

/-- A digit is no pad. -/
theorem digit_ne_pad (x : ℕ) : digit x ≠ pad := by
  unfold digit pad
  split_ifs <;> omega

/-- A digit is read as its value. -/
theorem decodeFrom_digit {x : ℕ} (hx : x < 64) (place left pads : ℕ) (rest : List ℕ) :
    decodeFrom place left pads (digit x :: rest) =
      if place = 0 then decodeFrom 1 x 0 rest
      else if place = 1 then (decodeFrom 2 (x % 16) 0 rest).map fun bytes => (left * 4 + x / 16) :: bytes
      else if place = 2 then (decodeFrom 3 (x % 4) 0 rest).map fun bytes => (left * 16 + x / 4) :: bytes
      else (decodeFrom 0 0 0 rest).map fun bytes => (left * 64 + x) :: bytes := by
  rw [decodeFrom, if_neg (digit_ne_pad x), digit?_digit hx]

/-- A group of four digits is read as its three bytes. -/
theorem decodeFrom_group {a b c : ℕ} (ha : a < 256) (hb : b < 256) (hc : c < 256) (pads : ℕ) (rest : List ℕ) :
    decodeFrom 0 0 pads (digit (a / 4) :: digit (a % 4 * 16 + b / 16) :: digit (b % 16 * 4 + c / 64) ::
      digit (c % 64) :: rest) =
      (decodeFrom 0 0 0 rest).map fun bytes => a :: b :: c :: bytes := by
  rw [decodeFrom_digit (by omega), if_pos rfl, decodeFrom_digit (by omega), if_neg (by decide), if_pos rfl,
    decodeFrom_digit (by omega), if_neg (by decide), if_neg (by decide), if_pos rfl, decodeFrom_digit (by omega),
    if_neg (by decide), if_neg (by decide), if_neg (by decide)]
  simp only [Option.map_map, Function.comp_def]
  have h1 : a / 4 * 4 + (a % 4 * 16 + b / 16) / 16 = a := by omega
  have h2 : (a % 4 * 16 + b / 16) % 16 * 16 + (b % 16 * 4 + c / 64) / 4 = b := by omega
  have h3 : (b % 16 * 4 + c / 64) % 4 * 64 + c % 64 = c := by omega
  rw [h1, h2, h3]

theorem decode_encode {bytes : List ℕ} (h : ∀ b ∈ bytes, b < 256) : decode (encode bytes) = some bytes := by
  unfold decode
  induction bytes using encode.induct with
  | case1 a b c rest ih =>
    simp only [List.forall_mem_cons] at h
    obtain ⟨ha, hb, hc, hrest⟩ := h
    rw [encode, decodeFrom_group ha hb hc, ih hrest]
    rfl
  | case2 a b =>
    simp only [List.forall_mem_cons] at h
    obtain ⟨ha, hb, -⟩ := h
    have h1 : a / 4 * 4 + (a % 4 * 16 + b / 16) / 16 = a := by omega
    have h2 : (a % 4 * 16 + b / 16) % 16 * 16 + b % 16 * 4 / 4 = b := by omega
    rw [encode, decodeFrom_digit (by omega), if_pos rfl, decodeFrom_digit (by omega), if_neg (by decide), if_pos rfl,
      decodeFrom_digit (by omega), if_neg (by decide), if_neg (by decide), if_pos rfl, h1, h2]
    rfl
  | case3 a =>
    simp only [List.forall_mem_cons] at h
    obtain ⟨ha, -⟩ := h
    have h1 : a / 4 * 4 + a % 4 * 16 / 16 = a := by omega
    rw [encode, decodeFrom_digit (by omega), if_pos rfl, decodeFrom_digit (by omega), if_neg (by decide), if_pos rfl, h1]
    rfl
  | case4 =>
    rw [encode]
    rfl

end Base64
