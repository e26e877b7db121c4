import Mathlib.Data.List.Basic
import Mathlib.Tactic.Common

/-!
# UTF-8

Texts as lists of code points, and UTF-8 as a decoder that goes through the
bytes one at a time (`decodeFrom`): it holds what it has of an unfinished
sequence (`Pending`), and puts U+FFFD for a sequence that breaks off and for
a byte that starts none. `decode_encode`: what is encoded is decoded to what
it was.
-/

namespace Utf8

/-- The code points of characters: all but the surrogates. -/
def Scalar (c : ℕ) : Prop := c < 0xD800 ∨ (0xE000 ≤ c ∧ c < 0x110000)

instance (c : ℕ) : Decidable (Scalar c) := inferInstanceAs (Decidable (_ ∨ _))

/-- What is put for bytes that are no character. -/
def replacement : ℕ := 0xFFFD

/-- A sequence that has not ended: how many bytes are to come, the bounds of
the next, and the value so far. -/
structure Pending where
  left : ℕ
  lo : ℕ := 0x80
  hi : ℕ := 0xBF
  value : ℕ

/-- The first byte of a sequence: the sequence, or the character it is. -/
def start (b : ℕ) : ℕ ⊕ Pending :=
  if b < 0x80 then .inl b
  else if b < 0xC2 then .inl replacement
  else if b < 0xE0 then .inr { left := 1, value := b - 0xC0 }
  else if b = 0xE0 then .inr { left := 2, lo := 0xA0, value := 0 }
  else if b = 0xED then .inr { left := 2, hi := 0x9F, value := 0xD }
  else if b < 0xF0 then .inr { left := 2, value := b - 0xE0 }
  else if b = 0xF0 then .inr { left := 3, lo := 0x90, value := 0 }
  else if b < 0xF4 then .inr { left := 3, value := b - 0xF0 }
  else if b = 0xF4 then .inr { left := 3, hi := 0x8F, value := 4 }
  else .inl replacement

/-- The value after one more byte. -/
def Pending.add (p : Pending) (b : ℕ) : ℕ := p.value * 64 + (b - 0x80)

def decodeFrom : Option Pending → List ℕ → List ℕ
  | none, [] => []
  | some _, [] => [replacement]
  | none, b :: rest =>
    match start b with
    | .inl c => c :: decodeFrom none rest
    | .inr p => decodeFrom (some p) rest
  | some p, b :: rest =>
    if p.lo ≤ b ∧ b ≤ p.hi then
      if p.left = 1 then p.add b :: decodeFrom none rest
      else decodeFrom (some { left := p.left - 1, value := p.add b }) rest
    else
      -- the sequence breaks off, and the byte starts the next one
      replacement ::
        match start b with
        | .inl c => c :: decodeFrom none rest
        | .inr p => decodeFrom (some p) rest

/-- The text of the bytes. -/
def decode (bytes : List UInt8) : List ℕ := decodeFrom none (bytes.map UInt8.toNat)

/-- The bytes of a code point. -/
def encodeChar (c : ℕ) : List ℕ :=
  if c < 0x80 then [c]
  else if c < 0x800 then [0xC0 + c / 64, 0x80 + c % 64]
  else if c < 0x10000 then [0xE0 + c / 4096, 0x80 + c / 64 % 64, 0x80 + c % 64]
  else [0xF0 + c / 262144, 0x80 + c / 4096 % 64, 0x80 + c / 64 % 64, 0x80 + c % 64]

def encode (text : List ℕ) : List UInt8 := (text.flatMap encodeChar).map UInt8.ofNat

/-! ## The round trip -/

section

variable {p : Pending} {b : ℕ} {rest : List ℕ}

theorem decodeFrom_last (hl : p.left = 1) (hlo : p.lo ≤ b) (hhi : b ≤ p.hi) :
    decodeFrom (some p) (b :: rest) = p.add b :: decodeFrom none rest := by
  rw [decodeFrom, if_pos ⟨hlo, hhi⟩, if_pos hl]

theorem decodeFrom_more (hl : p.left ≠ 1) (hlo : p.lo ≤ b) (hhi : b ≤ p.hi) :
    decodeFrom (some p) (b :: rest) = decodeFrom (some { left := p.left - 1, value := p.add b }) rest := by
  rw [decodeFrom, if_pos ⟨hlo, hhi⟩, if_neg hl]

theorem decodeFrom_char {c : ℕ} (h : start b = .inl c) :
    decodeFrom none (b :: rest) = c :: decodeFrom none rest := by
  rw [decodeFrom, h]

theorem decodeFrom_start (h : start b = .inr p) : decodeFrom none (b :: rest) = decodeFrom (some p) rest := by
  rw [decodeFrom, h]

end

/-- The first byte of a sequence of three, and the bounds of the second. -/
theorem start_three {c : ℕ} (hc : Scalar c) (h1 : 0x800 ≤ c) (h2 : c < 0x10000) :
    ∃ p, start (0xE0 + c / 4096) = .inr p ∧ p.left = 2 ∧ p.value = c / 4096 ∧
      p.lo ≤ 0x80 + c / 64 % 64 ∧ 0x80 + c / 64 % 64 ≤ p.hi := by
  unfold Scalar at hc
  unfold start
  split_ifs
  all_goals first | omega | exact ⟨_, rfl, rfl, by dsimp only; omega, by dsimp only; omega, by dsimp only; omega⟩

theorem start_four {c : ℕ} (hc : Scalar c) (h : 0x10000 ≤ c) :
    ∃ p, start (0xF0 + c / 262144) = .inr p ∧ p.left = 3 ∧ p.value = c / 262144 ∧
      p.lo ≤ 0x80 + c / 4096 % 64 ∧ 0x80 + c / 4096 % 64 ≤ p.hi := by
  unfold Scalar at hc
  unfold start
  split_ifs
  all_goals first | omega | exact ⟨_, rfl, rfl, by dsimp only; omega, by dsimp only; omega, by dsimp only; omega⟩

theorem decodeFrom_encodeChar {c : ℕ} (hc : Scalar c) (rest : List ℕ) :
    decodeFrom none (encodeChar c ++ rest) = c :: decodeFrom none rest := by
  unfold encodeChar
  split_ifs with h1 h2 h3
  · exact decodeFrom_char (if_pos h1)
  · have hs : start (0xC0 + c / 64) = .inr { left := 1, value := c / 64 } := by
      rw [start, if_neg (by omega), if_neg (by omega), if_pos (by omega), Nat.add_sub_cancel_left]
    simp only [List.cons_append, List.nil_append]
    rw [decodeFrom_start hs, decodeFrom_last (by rfl) (by dsimp only; omega) (by dsimp only; omega)]
    unfold Pending.add
    exact congrArg₂ List.cons (by dsimp only; omega) rfl
  · obtain ⟨p, hs, hl, hv, hlo, hhi⟩ := start_three hc (by omega) h3
    simp only [List.cons_append, List.nil_append]
    rw [decodeFrom_start hs, decodeFrom_more (by omega) hlo hhi,
      decodeFrom_last (by dsimp only; omega) (by dsimp only; omega) (by dsimp only; omega)]
    unfold Pending.add
    exact congrArg₂ List.cons (by dsimp only; omega) rfl
  · obtain ⟨p, hs, hl, hv, hlo, hhi⟩ := start_four hc (by omega)
    simp only [List.cons_append, List.nil_append]
    rw [decodeFrom_start hs, decodeFrom_more (by omega) hlo hhi,
      decodeFrom_more (by dsimp only; omega) (by dsimp only; omega) (by dsimp only; omega),
      decodeFrom_last (by dsimp only; omega) (by dsimp only; omega) (by dsimp only; omega)]
    unfold Pending.add
    exact congrArg₂ List.cons (by dsimp only; omega) rfl

theorem encodeChar_lt {c : ℕ} (hc : Scalar c) : ∀ b ∈ encodeChar c, b < 256 := by
  unfold Scalar at hc
  unfold encodeChar
  split_ifs
  all_goals simp only [List.forall_mem_cons, List.not_mem_nil, false_implies, implies_true, and_true]
  all_goals omega

theorem toNat_encode {text : List ℕ} (h : ∀ c ∈ text, Scalar c) :
    (encode text).map UInt8.toNat = text.flatMap encodeChar := by
  unfold encode
  rw [List.map_map]
  refine (List.map_congr_left fun b hb => ?_).trans (List.map_id _)
  obtain ⟨c, hc, hb⟩ := List.mem_flatMap.mp hb
  exact Nat.mod_eq_of_lt (encodeChar_lt (h c hc) b hb)

/-- What is encoded is decoded to what it was. -/
theorem decode_encode {text : List ℕ} (h : ∀ c ∈ text, Scalar c) : decode (encode text) = text := by
  rw [decode, toNat_encode h]
  induction text with
  | nil => rfl
  | cons c text ih =>
    rw [List.flatMap_cons, decodeFrom_encodeChar (h c List.mem_cons_self),
      ih fun d hd => h d (List.mem_cons_of_mem c hd)]

end Utf8
