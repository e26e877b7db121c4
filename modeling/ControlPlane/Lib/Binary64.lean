import Mathlib.Data.Int.Log
import Mathlib.Data.Rat.Floor
import Mathlib.Tactic.Linarith
import Mathlib.Tactic.Positivity
import Mathlib.Tactic.FieldSimp
import Mathlib.Tactic.NormNum

/-!
# Binary floating-point numbers, by their values

Rounding to the nearest number of a binary format, ties to even
(`Format.round`), for any number of bits, and the finite values of the IEEE 754
binary64 format as rationals (`Double`, `nearest?`). The two zeros are one value
here: no comparison tells them apart.

* `Format.round_mono`: rounding is monotone;
* `Format.round_scaled`: a number of no more bits than the format's is kept, so
  rounding to a format and then to a wider one is the first rounding
  (`Format.round_round`), and small integers are kept (`Format.round_int`);
* `Double.repr`: the shortest decimal that reads back as the number, which
  it does by `nearest_repr`;
* `Double.single?`: what a binary32 number holds of a double.
-/

namespace Binary64

/-- The nearest integer, ties to even. -/
def halfEven (x : ℚ) : ℤ :=
  if x - ⌊x⌋ < 1 / 2 then ⌊x⌋ else if 1 / 2 < x - ⌊x⌋ then ⌊x⌋ + 1
  else if ⌊x⌋ % 2 = 0 then ⌊x⌋ else ⌊x⌋ + 1

theorem halfEven_intCast (n : ℤ) : halfEven n = n := by simp [halfEven]

theorem floor_le_halfEven (x : ℚ) : ⌊x⌋ ≤ halfEven x := by
  unfold halfEven; split_ifs <;> omega

theorem halfEven_le_floor (x : ℚ) : halfEven x ≤ ⌊x⌋ + 1 := by
  unfold halfEven; split_ifs <;> omega

theorem halfEven_mono {x y : ℚ} (h : x ≤ y) : halfEven x ≤ halfEven y := by
  rcases (Int.floor_le_floor h).lt_or_eq with hf | hf
  · exact (halfEven_le_floor x).trans (le_trans (by omega) (floor_le_halfEven y))
  · simp only [halfEven, ← hf]
    split_ifs <;> first | omega | (exfalso; linarith)

/-- A binary format, of unbounded magnitude. -/
structure Format where
  /-- The bits after the first one. -/
  fraction : ℕ
  /-- The exponent of the last bit of its smallest number. -/
  minExp : ℤ

theorem two_zpow_pos (e : ℤ) : (0 : ℚ) < 2 ^ e := zpow_pos (by norm_num) e

namespace Format

variable (f : Format)

/-- The exponent of the last of the bits of a positive number. -/
def expOf (q : ℚ) : ℤ := max (Int.log 2 q - f.fraction) f.minExp

/-- Rounding of a number that is not negative. -/
def roundPos (q : ℚ) : ℚ := halfEven (q / 2 ^ f.expOf q) * 2 ^ f.expOf q

/-- The nearest number of the format, ties to even. -/
def round (q : ℚ) : ℚ := if q < 0 then -f.roundPos (-q) else f.roundPos q

variable {f}

theorem roundPos_nonneg {q : ℚ} (h : 0 ≤ q) : 0 ≤ f.roundPos q := by
  have h0 : halfEven 0 = 0 := halfEven_intCast 0
  have := halfEven_mono (div_nonneg h (two_zpow_pos (f.expOf q)).le)
  rw [h0] at this
  exact mul_nonneg (by exact_mod_cast this) (two_zpow_pos _).le

theorem lt_scaled (q : ℚ) : q < 2 ^ (f.expOf q + (f.fraction + 1)) := by
  refine (Int.lt_zpow_succ_log_self (b := 2) (by decide) q).trans_le ?_
  simp only [Nat.cast_ofNat]
  exact zpow_le_zpow_right₀ (by norm_num) (by unfold expOf; omega)

/-- A number, in units of its last bit, is of no more bits than the format's. -/
theorem scaled_le (q : ℚ) : q / 2 ^ f.expOf q ≤ ((2 ^ (f.fraction + 1) : ℤ) : ℚ) := by
  rw [div_le_iff₀ (two_zpow_pos _)]
  refine (f.lt_scaled q).le.trans_eq ?_
  rw [zpow_add₀ (by norm_num), mul_comm]
  norm_cast

theorem roundPos_le (q : ℚ) : f.roundPos q ≤ 2 ^ (f.expOf q + (f.fraction + 1)) := by
  have hm := halfEven_mono (f.scaled_le q)
  rw [halfEven_intCast] at hm
  have hm' : (halfEven (q / 2 ^ f.expOf q) : ℚ) ≤ 2 ^ (f.fraction + 1) := by exact_mod_cast hm
  rw [zpow_add₀ (by norm_num), mul_comm ((2 : ℚ) ^ f.expOf q)]
  exact mul_le_mul_of_nonneg_right (by exact_mod_cast hm') (two_zpow_pos _).le

theorem le_roundPos {q : ℚ} (h : 0 < q) (he : f.minExp < f.expOf q) : 2 ^ (f.expOf q + f.fraction) ≤ f.roundPos q := by
  have hl : f.expOf q + f.fraction = Int.log 2 q := by unfold expOf at he ⊢; omega
  have hq : ((2 ^ f.fraction : ℤ) : ℚ) ≤ q / 2 ^ f.expOf q := by
    rw [le_div_iff₀ (two_zpow_pos _)]
    refine le_trans (le_of_eq ?_) (Int.zpow_log_le_self (b := 2) (by decide) h)
    rw [← hl, zpow_add₀ (by norm_num), mul_comm]
    norm_cast
  have hm := halfEven_mono hq
  rw [halfEven_intCast] at hm
  have hm' : (2 : ℚ) ^ f.fraction ≤ halfEven (q / 2 ^ f.expOf q) := by exact_mod_cast hm
  rw [zpow_add₀ (by norm_num), mul_comm ((2 : ℚ) ^ f.expOf q)]
  exact mul_le_mul_of_nonneg_right (by exact_mod_cast hm') (two_zpow_pos _).le

theorem expOf_mono {a b : ℚ} (ha : 0 < a) (h : a ≤ b) : f.expOf a ≤ f.expOf b := by
  have := Int.log_mono_right (b := 2) ha h
  unfold expOf; omega

theorem roundPos_mono {a b : ℚ} (ha : 0 ≤ a) (h : a ≤ b) : f.roundPos a ≤ f.roundPos b := by
  rcases ha.eq_or_lt with rfl | ha
  · have h0 : f.roundPos 0 = 0 := by simp [roundPos, halfEven]
    rw [h0]; exact roundPos_nonneg h
  rcases (f.expOf_mono ha h).lt_or_eq with he | he
  -- from one binade to the next, the power of two between them separates the results
  · refine (roundPos_le a).trans (le_trans ?_ (le_roundPos (ha.trans_le h) ?_))
    · exact zpow_le_zpow_right₀ (by norm_num) (by omega)
    · have : f.minExp ≤ f.expOf a := le_max_right _ _
      omega
  · simp only [roundPos, ← he]
    have hm := halfEven_mono (div_le_div_of_nonneg_right h (two_zpow_pos (f.expOf a)).le)
    exact mul_le_mul_of_nonneg_right (by exact_mod_cast hm) (two_zpow_pos _).le

theorem round_mono {a b : ℚ} (h : a ≤ b) : f.round a ≤ f.round b := by
  unfold round
  split_ifs with ha hb hb
  · exact neg_le_neg (roundPos_mono (by linarith) (by linarith))
  · have := f.roundPos_nonneg (q := -a) (by linarith)
    have := f.roundPos_nonneg (q := b) (by linarith)
    linarith
  · exact absurd hb (by linarith)
  · exact roundPos_mono (by linarith) h

/-! ## Numbers that rounding keeps -/

/-- A multiple of the last bit's weight is kept. -/
theorem roundPos_of_int {q : ℚ} {n : ℤ} (h : q / 2 ^ f.expOf q = n) : f.roundPos q = q := by
  unfold roundPos
  rw [h, halfEven_intCast, ← h, div_mul_cancel₀ _ (two_zpow_pos _).ne']

theorem roundPos_scaled {m : ℕ} {e : ℤ} (hm : m ≤ 2 ^ (f.fraction + 1)) (he : f.minExp ≤ e) :
    f.roundPos (m * 2 ^ e) = m * 2 ^ e := by
  rcases Nat.eq_zero_or_pos m with rfl | hpos
  · simp [roundPos, halfEven]
  have hq : (0 : ℚ) < m * 2 ^ e := mul_pos (by exact_mod_cast hpos) (two_zpow_pos _)
  rcases le_or_gt (f.expOf (m * 2 ^ e)) e with hle | hlt
  · obtain ⟨k, hk⟩ := Int.eq_ofNat_of_zero_le (sub_nonneg.mpr hle)
    refine roundPos_of_int (n := m * 2 ^ k) ?_
    rw [mul_div_assoc, ← zpow_sub₀ (by norm_num), hk, zpow_natCast]
    push_cast; rfl
  · -- only the power above the largest carries into the next binade, as the power below it there
    have hb : (m : ℚ) * 2 ^ e ≤ 2 ^ (e + (f.fraction + 1)) := by
      rw [zpow_add₀ (by norm_num), mul_comm ((2 : ℚ) ^ e)]
      exact mul_le_mul_of_nonneg_right (by exact_mod_cast hm) (two_zpow_pos _).le
    have hlog : f.expOf (m * 2 ^ e) = Int.log 2 ((m : ℚ) * 2 ^ e) - f.fraction := by unfold expOf at hlt ⊢; omega
    have hge := Int.zpow_log_le_self (b := 2) (by decide) hq
    simp only [Nat.cast_ofNat] at hge
    have hu : Int.log 2 ((m : ℚ) * 2 ^ e) ≤ e + (f.fraction + 1) :=
      (zpow_le_zpow_iff_right₀ (by norm_num : (1 : ℚ) < 2)).mp (hge.trans hb)
    have h1 : f.expOf (m * 2 ^ e) = e + 1 := by omega
    refine roundPos_of_int (n := 2 ^ f.fraction) ?_
    have heq : (m : ℚ) * 2 ^ e = 2 ^ (e + (f.fraction + 1)) := le_antisymm hb (by
      rw [show Int.log 2 ((m : ℚ) * 2 ^ e) = e + (f.fraction + 1) by omega] at hge; exact hge)
    rw [h1, heq, ← zpow_sub₀ (by norm_num), show e + (f.fraction + 1) - (e + 1) = (f.fraction : ℤ) by omega, zpow_natCast]
    norm_cast

/-- A number of no more bits than the format's is kept. -/
theorem round_scaled {n e : ℤ} (hn : |n| ≤ 2 ^ (f.fraction + 1)) (he : f.minExp ≤ e) :
    f.round (n * 2 ^ e) = n * 2 ^ e := by
  have hm : n.natAbs ≤ 2 ^ (f.fraction + 1) := by rw [Int.abs_eq_natAbs] at hn; exact_mod_cast hn
  have hs := roundPos_scaled hm he
  rw [Nat.cast_natAbs] at hs
  rcases le_or_gt 0 n with h | h
  · rw [abs_of_nonneg h] at hs
    rw [round, if_neg (not_lt.mpr (mul_nonneg (by exact_mod_cast h) (two_zpow_pos _).le)), hs]
  · rw [abs_of_neg h, Int.cast_neg, neg_mul] at hs
    rw [round, if_pos (mul_neg_of_neg_of_pos (by exact_mod_cast h) (two_zpow_pos _)), hs, neg_neg]

theorem round_int {n : ℤ} (hn : |n| ≤ 2 ^ (f.fraction + 1)) (he : f.minExp ≤ 0) : f.round n = n := by
  simpa using round_scaled hn he

/-- What rounding gives has no more bits than the format's. -/
theorem round_form (q : ℚ) : ∃ n e : ℤ, f.round q = n * 2 ^ e ∧ |n| ≤ 2 ^ (f.fraction + 1) ∧ f.minExp ≤ e := by
  have pos : ∀ r : ℚ, 0 ≤ r → |halfEven (r / 2 ^ f.expOf r)| ≤ 2 ^ (f.fraction + 1) := by
    intro r hr
    have h0 : ((0 : ℤ) : ℚ) ≤ r / 2 ^ f.expOf r := by
      rw [Int.cast_zero]; exact div_nonneg hr (two_zpow_pos _).le
    have l := halfEven_mono h0
    have u := halfEven_mono (f.scaled_le r)
    rw [halfEven_intCast] at l u
    rw [abs_of_nonneg l]; exact u
  unfold round
  split_ifs with h
  · refine ⟨-halfEven (-q / 2 ^ f.expOf (-q)), f.expOf (-q), ?_, ?_, le_max_right _ _⟩
    · rw [roundPos]; push_cast; rw [neg_mul]
    · rw [abs_neg]; exact pos _ (by linarith)
  · exact ⟨_, _, rfl, pos _ (by linarith), le_max_right _ _⟩

/-- A wider format keeps what a narrower one has rounded. -/
theorem round_round {g : Format} (hf : g.fraction ≤ f.fraction) (he : f.minExp ≤ g.minExp) (q : ℚ) :
    f.round (g.round q) = g.round q := by
  obtain ⟨n, e, h, hn, hm⟩ := g.round_form q
  rw [h, round_scaled (hn.trans (pow_le_pow_right₀ (by norm_num) (by omega))) (he.trans hm)]

end Format

def binary64 : Format := ⟨52, -1074⟩

def binary32 : Format := ⟨23, -149⟩

/-- The nearest number of 53 bits, whatever its exponent from `-1074` on,
ties to even. -/
def round (q : ℚ) : ℚ := binary64.round q

theorem round_mono {a b : ℚ} (h : a ≤ b) : round a ≤ round b := Format.round_mono h

theorem round_int {n : ℤ} (hn : |n| ≤ 2 ^ 53) : round n = n := Format.round_int (f := binary64) hn (by decide)

theorem round_form (q : ℚ) : ∃ n e : ℤ, round q = n * 2 ^ e ∧ |n| ≤ 2 ^ 53 ∧ -1074 ≤ e := binary64.round_form q

theorem round_round (q : ℚ) : round (round q) = round q := Format.round_round le_rfl le_rfl q

/-! ## Finite numbers -/

/-- A finite binary64 number. -/
structure Double where
  val : ℚ
  round_val : round val = val
  lt_max : |val| < 2 ^ 1024
  deriving DecidableEq

theorem Double.val_injective : Function.Injective Double.val := by
  rintro ⟨v, _, _⟩ ⟨w, _, _⟩ h
  cases h
  rfl

instance : LinearOrder Double := LinearOrder.lift' Double.val Double.val_injective

/-- The nearest finite number, unless the magnitude is too large for one. -/
def nearest? (q : ℚ) : Option Double :=
  if h : |round q| < 2 ^ 1024 then some ⟨round q, round_round q, h⟩ else none

theorem nearest_val (d : Double) : nearest? d.val = some d := by
  simp only [nearest?, d.round_val, d.lt_max, dite_true]

theorem nearest_eq_some {q : ℚ} {d : Double} (h : nearest? q = some d) : d.val = round q := by
  unfold nearest? at h
  split_ifs at h
  rw [← Option.some.inj h]

/-- An integer of at most 53 bits. -/
def Double.ofInt (n : ℤ) (h : |n| ≤ 2 ^ 53) : Double where
  val := n
  round_val := round_int h
  lt_max := by
    rw [← Int.cast_abs]
    refine lt_of_le_of_lt (b := (2 : ℚ) ^ 53) (by exact_mod_cast h) ?_
    exact pow_lt_pow_right₀ (by norm_num) (by decide)

theorem abs_one_le : |(1 : ℤ)| ≤ 2 ^ 53 := by decide

theorem nearest_int {n : ℤ} (h : |n| ≤ 2 ^ 53) : nearest? n = some (Double.ofInt n h) :=
  nearest_val (Double.ofInt n h)

/-- The decimals of `k` digits next to a number, the nearest one first. -/
def decimals (q : ℚ) (k : ℕ) : List ℚ :=
  let u : ℚ := 10 ^ (Int.log 10 |q| + 1 - k)
  [halfEven (q / u) * u, ⌊q / u⌋ * u, ⌈q / u⌉ * u]

/-- The shortest decimal that reads back as the number. -/
def Double.repr (d : Double) : ℚ :=
  (((List.range' 1 17).flatMap (decimals d.val)).find? fun r => nearest? r = some d).getD d.val

theorem nearest_repr (d : Double) : nearest? d.repr = some d := by
  unfold Double.repr
  cases hf : ((List.range' 1 17).flatMap (decimals d.val)).find? fun r => nearest? r = some d with
  | none => exact nearest_val d
  | some r => simpa using List.find?_some hf

/-! ## Single precision -/

/-- What a binary32 number holds of the double, unless the magnitude is too
large for one. -/
def Double.single? (d : Double) : Option Double :=
  if h : |binary32.round d.val| < 2 ^ 128 then
    some ⟨binary32.round d.val, Format.round_round (by decide) (by decide) d.val,
      h.trans (pow_lt_pow_right₀ (by norm_num) (by decide))⟩
  else none

/-- A number between two small integers stays there. -/
theorem Double.single_between {d : Double} {m n : ℤ} (hm : |m| ≤ 2 ^ 24) (hn : |n| ≤ 2 ^ 24) (hlo : m ≤ d.val)
    (hhi : d.val ≤ n) : ∃ s, d.single? = some s ∧ m ≤ s.val ∧ s.val ≤ n := by
  have hlo := binary32.round_mono hlo
  have hhi := binary32.round_mono hhi
  rw [Format.round_int hm (by decide)] at hlo
  rw [Format.round_int hn (by decide)] at hhi
  have hmax : |binary32.round d.val| < 2 ^ 128 := by
    have hm' : (-2 ^ 24 : ℚ) ≤ m := by exact_mod_cast (abs_le.mp hm).1
    have hn' : (n : ℚ) ≤ 2 ^ 24 := by exact_mod_cast (abs_le.mp hn).2
    refine (abs_le.mpr ⟨hm'.trans hlo, hhi.trans hn'⟩).trans_lt ?_
    exact pow_lt_pow_right₀ (by norm_num) (by decide)
  exact ⟨_, dif_pos hmax, hlo, hhi⟩

end Binary64
