import Mathlib.Data.List.Lex
import Mathlib.Data.Nat.Digits.Defs
import Mathlib.Tactic.IntervalCases
import Mathlib.Tactic.Ring

/-!
# Decimals of a fixed width

A number in so many decimal digits, padded with zeros (`fixed`). Texts that
begin with such decimals of one width compare by the numbers first
(`fixed_append_lt`).
-/

namespace Digits

/-- The last `n` decimal digits of a number. -/
def fixed : ℕ → ℕ → List Char
  | 0, _ => []
  | n + 1, k => Nat.digitChar (k / 10 ^ n) :: fixed n (k % 10 ^ n)

theorem digitChar_lt {a b : ℕ} (ha : a < 10) (hb : b < 10) : Nat.digitChar a < Nat.digitChar b ↔ a < b := by
  interval_cases a <;> interval_cases b <;> decide

theorem digitChar_inj {a b : ℕ} (ha : a < 10) (hb : b < 10) : Nat.digitChar a = Nat.digitChar b ↔ a = b := by
  interval_cases a <;> interval_cases b <;> decide

/-- Numbers compare by their quotients first. -/
theorem lt_iff_div_mod {a b : ℕ} (m : ℕ) : a < b ↔ a / m < b / m ∨ a / m = b / m ∧ a % m < b % m := by
  have ha := Nat.div_add_mod a m
  have hb := Nat.div_add_mod b m
  constructor
  · intro h
    obtain hlt | heq := (Nat.div_le_div_right h.le : a / m ≤ b / m).lt_or_eq
    · exact .inl hlt
    · rw [heq] at ha
      exact .inr ⟨heq, by omega⟩
  · rintro (hlt | ⟨heq, hmod⟩)
    · exact Nat.lt_of_div_lt_div hlt
    · rw [heq] at ha
      omega

theorem eq_iff_div_mod {a b : ℕ} (m : ℕ) : a = b ↔ a / m = b / m ∧ a % m = b % m := by
  constructor
  · rintro rfl
    exact ⟨rfl, rfl⟩
  · rintro ⟨hd, hr⟩
    rw [← Nat.div_add_mod a m, hd, hr, Nat.div_add_mod]

theorem fixed_append_lt {n a b : ℕ} (ha : a < 10 ^ n) (hb : b < 10 ^ n) (s t : List Char) :
    fixed n a ++ s < fixed n b ++ t ↔ a < b ∨ a = b ∧ s < t := by
  induction n generalizing a b with
  | zero =>
    rw [pow_zero, Nat.lt_one_iff] at ha hb
    subst ha hb
    simp [fixed]
  | succ n ih =>
    have hpos : 0 < 10 ^ n := Nat.pow_pos (by decide)
    have hda : a / 10 ^ n < 10 := Nat.div_lt_of_lt_mul ha
    have hdb : b / 10 ^ n < 10 := Nat.div_lt_of_lt_mul hb
    have hra : a % 10 ^ n < 10 ^ n := Nat.mod_lt a hpos
    have hrb : b % 10 ^ n < 10 ^ n := Nat.mod_lt b hpos
    simp only [fixed, List.cons_append, List.cons_lt_cons_iff, digitChar_lt hda hdb, digitChar_inj hda hdb, ih hra hrb]
    rw [lt_iff_div_mod (10 ^ n) (a := a), eq_iff_div_mod (10 ^ n) (a := a)]
    tauto

end Digits
