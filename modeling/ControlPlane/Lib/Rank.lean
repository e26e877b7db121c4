import Mathlib.Data.List.Sort
import Mathlib.Data.Rat.Floor
import Mathlib.Order.Bounds.Basic
import Mathlib.Tactic.Linarith

/-!
# Ranks in a sorted list

What the place of an element in a sorted list says of how much of the list
lies at or below it, over any linear order (`isLeast_getElem`), and the place
that nearest rank gives a share of the list (`place`, `place_lt_iff`).
-/

namespace Rank

section

variable {α : Type*} [LinearOrder α] {l : List α} {i : ℕ}

theorem lt_countP (hl : l.Pairwise (· ≤ ·)) (hi : i < l.length) : i < l.countP (· ≤ l[i]) := by
  have hall : ∀ a ∈ l.take (i + 1), decide (a ≤ l[i]) = true := by
    intro a ha
    obtain ⟨j, hj, rfl⟩ := List.mem_take_iff_getElem.mp ha
    obtain hji | rfl := (by omega : j < i ∨ j = i)
    · exact decide_eq_true (List.pairwise_iff_getElem.mp hl j i _ hi hji)
    · exact decide_eq_true le_rfl
  have hle := (List.take_sublist (i + 1) l).countP_le (p := fun a => decide (a ≤ l[i]))
  rw [List.countP_eq_length.mpr hall, List.length_take] at hle
  omega

theorem countP_le (hl : l.Pairwise (· ≤ ·)) (hi : i < l.length) {x : α} (hx : x < l[i]) : l.countP (· ≤ x) ≤ i := by
  have hnone : (l.drop i).countP (· ≤ x) = 0 := by
    refine List.countP_eq_zero.mpr fun a ha => ?_
    obtain ⟨j, hj, rfl⟩ := List.mem_drop_iff_getElem.mp ha
    have hle : l[i] ≤ l[i + j] := by
      obtain rfl | hpos := Nat.eq_zero_or_pos j
      · exact le_rfl
      · exact List.pairwise_iff_getElem.mp hl i (i + j) hi _ (by omega)
    simpa using hx.trans_le hle
  calc l.countP (· ≤ x) = (l.take i).countP (· ≤ x) + (l.drop i).countP (· ≤ x) := by
        rw [← List.countP_append, List.take_append_drop]
    _ ≤ (l.take i).length + 0 := by rw [hnone]; exact Nat.add_le_add_right List.countP_le_length _
    _ ≤ i := by rw [List.length_take]; omega

/-- The element at a place is the least with more of the list at or below it
than come before the place. -/
theorem isLeast_getElem (hl : l.Pairwise (· ≤ ·)) (hi : i < l.length) :
    IsLeast {x | x ∈ l ∧ i < l.countP (· ≤ x)} l[i] := by
  refine ⟨⟨List.getElem_mem hi, lt_countP hl hi⟩, fun x hx => ?_⟩
  by_contra hlt
  exact absurd (countP_le hl hi (not_le.mp hlt)) (not_le.mpr hx.2)

end

/-- The place of a share of `n` elements, by nearest rank. -/
def place (share : ℚ) (n : ℕ) : ℕ := (max 0 (min (⌈share * n⌉ - 1) ((n : ℤ) - 1))).toNat

variable {share : ℚ} {n : ℕ}

theorem place_lt (h : 0 < n) : place share n < n := by
  unfold place
  omega

/-- The share is what is at most the count. -/
theorem place_lt_iff (hpos : 0 < share) (hle : share ≤ 1) (h : 0 < n) {c : ℕ} :
    place share n < c ↔ share * n ≤ c := by
  have hn : (0 : ℚ) < n := by exact_mod_cast h
  have hone : 1 ≤ ⌈share * n⌉ := Int.one_le_ceil_iff.mpr (mul_pos hpos hn)
  have hceil : ⌈share * n⌉ ≤ n := Int.ceil_le.mpr (by simpa using mul_le_of_le_one_left hn.le hle)
  have hc : share * n ≤ c ↔ ⌈share * n⌉ ≤ (c : ℤ) := by
    rw [Int.ceil_le]
    norm_cast
  rw [hc]
  unfold place
  omega

end Rank
