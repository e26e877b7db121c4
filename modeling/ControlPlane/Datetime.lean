import Mathlib.Data.String.Basic
import ControlPlane.Lib.Digits
import ControlPlane.Python

/-!
# Times in UTC, and how they are written

What `datetime.now(UTC)` gives (`Datetime`), and `datetime.isoformat` of it,
which leaves the fraction out where it is zero.

* `Datetime.fromisoformat_isoformat`: it reads back as the time.
* `Datetime.cmp_isoformat`: two texts compare as the times do: a fraction
  begins with `.`, which comes after the `+` of a text without one.
-/

namespace ControlPlane

open Digits (fixed fixed_append_lt)

/-- A time in UTC. -/
structure Datetime where
  year : ℕ
  month : ℕ
  day : ℕ
  hour : ℕ
  minute : ℕ
  second : ℕ
  microsecond : ℕ
  year_bound : 1 ≤ year ∧ year < 10000
  month_bound : 1 ≤ month ∧ month ≤ 12
  day_bound : 1 ≤ day ∧ day ≤ daysInMonth year month
  time_bound : hour < 24 ∧ minute < 60 ∧ second < 60 ∧ microsecond < 1000000

namespace Datetime

/-- The time since 1970, in microseconds. -/
def micros (d : Datetime) : ℤ :=
  (((daysFromCivil d.year d.month d.day * 24 + d.hour) * 60 + d.minute) * 60 + d.second) * 1000000 + d.microsecond

/-- The fraction and what follows it. -/
def ending (microsecond : ℕ) : List Char :=
  (if microsecond = 0 then [] else '.' :: fixed 6 microsecond) ++ "+00:00".toList

/-- `d.isoformat()`. -/
def isoformat (d : Datetime) : String :=
  String.ofList (fixed 4 d.year ++ '-' :: (fixed 2 d.month ++ '-' :: (fixed 2 d.day ++ 'T' :: (fixed 2 d.hour ++
    ':' :: (fixed 2 d.minute ++ ':' :: (fixed 2 d.second ++ ending d.microsecond))))))

end Datetime

/-! ## The calendar -/

section

variable (year : ℕ) {month day : ℕ}

theorem daysFromCivil_day (year : ℤ) (month day : ℕ) : daysFromCivil year month day = daysFromCivil year month 1 + day - 1 := by
  simp only [daysFromCivil, Nat.cast_one]
  omega

/-- The days of a month are those to the next month. -/
theorem daysFromCivil_month (h : 1 ≤ month) (h' : month < 12) :
    daysFromCivil year (month + 1) 1 = daysFromCivil year month 1 + daysInMonth year month := by
  interval_cases month <;> simp [daysFromCivil, daysInMonth] <;> omega

theorem daysFromCivil_year (year : ℕ) : daysFromCivil (year + 1 : ℕ) 1 1 = daysFromCivil year 12 1 + 31 := by
  simp [daysFromCivil]
  omega

/-- The first of a month lies after every day of the months before. -/
theorem daysFromCivil_months {month' : ℕ} (h : 1 ≤ month) (hlt : month < month') (h' : month' ≤ 12) :
    daysFromCivil year month 1 + daysInMonth year month ≤ daysFromCivil year month' 1 := by
  induction month', hlt using Nat.le_induction with
  | base => exact (daysFromCivil_month year h (by omega)).ge
  | succ n hn ih =>
    have hnext : daysFromCivil year (n + 1) 1 = daysFromCivil year n 1 + daysInMonth year n :=
      daysFromCivil_month year (by omega) (by omega)
    have ih := ih (by omega)
    omega

theorem daysFromCivil_lt_year (h : 1 ≤ month ∧ month ≤ 12) :
    daysFromCivil year month 1 + daysInMonth year month ≤ daysFromCivil (year + 1 : ℕ) 1 1 := by
  rw [daysFromCivil_year]
  obtain hlt | rfl := (by omega : month < 12 ∨ month = 12)
  · have hmonths := daysFromCivil_months year h.1 hlt le_rfl
    omega
  · rfl

theorem daysFromCivil_years {year year' : ℕ} (h : year ≤ year') : daysFromCivil year 1 1 ≤ daysFromCivil year' 1 1 := by
  induction year', h using Nat.le_induction with
  | base => exact le_rfl
  | succ n hn ih =>
    have hnext := daysFromCivil_lt_year n (by decide : 1 ≤ 1 ∧ 1 ≤ 12)
    omega

end

/-- Dates in time order, by their fields. -/
theorem daysFromCivil_lt {year month day year' month' day' : ℕ} (hm : 1 ≤ month ∧ month ≤ 12)
    (hd : 1 ≤ day ∧ day ≤ daysInMonth year month) (hm' : 1 ≤ month' ∧ month' ≤ 12) (hd' : 1 ≤ day')
    (h : year < year' ∨ year = year' ∧ (month < month' ∨ month = month' ∧ day < day')) :
    daysFromCivil year month day < daysFromCivil year' month' day' := by
  rw [daysFromCivil_day year, daysFromCivil_day year']
  obtain hy | ⟨rfl, hmonth | ⟨rfl, hday⟩⟩ := h
  · have hnext := daysFromCivil_lt_year year hm
    have hyears := daysFromCivil_years (Nat.succ_le_of_lt hy)
    have hjanuary : daysFromCivil year' 1 1 ≤ daysFromCivil year' month' 1 := by
      obtain hlt | heq := hm'.1.lt_or_eq
      · have hmonths := daysFromCivil_months year' le_rfl hlt hm'.2
        omega
      · rw [← heq]
    rw [Nat.succ_eq_add_one] at hyears
    omega
  · have hmonths := daysFromCivil_months year hm.1 hmonth hm'.2
    omega
  · omega

/-! ## Time order -/

namespace Datetime

variable {a b : Datetime}

/-- The order of the fields, from the year on. -/
def Before (a b : Datetime) : Prop :=
  a.year < b.year ∨ a.year = b.year ∧ (a.month < b.month ∨ a.month = b.month ∧ (a.day < b.day ∨ a.day = b.day ∧
    (a.hour < b.hour ∨ a.hour = b.hour ∧ (a.minute < b.minute ∨ a.minute = b.minute ∧
      (a.second < b.second ∨ a.second = b.second ∧ a.microsecond < b.microsecond)))))

theorem micros_lt (h : a.Before b) : a.micros < b.micros := by
  obtain ⟨ha, ha', ha'', ha'''⟩ := a.time_bound
  obtain ⟨hb, hb', hb'', hb'''⟩ := b.time_bound
  have hdays : daysFromCivil a.year a.month a.day < daysFromCivil b.year b.month b.day ∨
      a.year = b.year ∧ a.month = b.month ∧ a.day = b.day := by
    by_cases hdate : a.year < b.year ∨ a.year = b.year ∧ (a.month < b.month ∨ a.month = b.month ∧ a.day < b.day)
    · exact .inl (daysFromCivil_lt a.month_bound a.day_bound b.month_bound b.day_bound.1 hdate)
    · unfold Before at h
      omega
  unfold micros
  obtain hlt | ⟨hy, hm, hd⟩ := hdays
  · omega
  · unfold Before at h
    rw [hy, hm, hd]
    omega

theorem ending_lt {m n : ℕ} (hm : m < 1000000) (hn : n < 1000000) : ending m < ending n ↔ m < n := by
  have hdot (k : ℕ) : "+00:00".toList < '.' :: fixed 6 k ++ "+00:00".toList := List.Lex.rel (by decide)
  have hplus (k : ℕ) : ¬ '.' :: fixed 6 k ++ "+00:00".toList < "+00:00".toList := fun h => lt_asymm h (hdot k)
  unfold ending
  obtain rfl | hmpos := Nat.eq_zero_or_pos m
  · obtain rfl | hnpos := Nat.eq_zero_or_pos n
    · simp
    · rw [if_pos rfl, if_neg hnpos.ne', List.nil_append]
      exact iff_of_true (hdot n) hnpos
  · rw [if_neg hmpos.ne']
    obtain rfl | hnpos := Nat.eq_zero_or_pos n
    · rw [if_pos rfl, List.nil_append]
      exact iff_of_false (hplus m) (Nat.not_lt_zero m)
    · rw [if_neg hnpos.ne', List.cons_append, List.cons_append, List.cons_lt_cons_iff, fixed_append_lt hm hn]
      simp

theorem isoformat_lt : a.isoformat < b.isoformat ↔ a.Before b := by
  obtain ⟨hha, hna, hsa, hfa⟩ := a.time_bound
  obtain ⟨hhb, hnb, hsb, hfb⟩ := b.time_bound
  have hda := a.day_bound.2.trans (daysInMonth_le _ _)
  have hdb := b.day_bound.2.trans (daysInMonth_le _ _)
  have hma := a.month_bound.2
  have hmb := b.month_bound.2
  have hyear := fixed_append_lt (n := 4) a.year_bound.2 b.year_bound.2
  have hpair {m n : ℕ} (hm : m < 100) (hn : n < 100) (s t : List Char) :
      fixed 2 m ++ s < fixed 2 n ++ t ↔ m < n ∨ m = n ∧ s < t := fixed_append_lt (n := 2) hm hn s t
  have hmonth := hpair (m := a.month) (n := b.month) (by omega) (by omega)
  have hday := hpair (m := a.day) (n := b.day) (by omega) (by omega)
  have hhour := hpair (m := a.hour) (n := b.hour) (by omega) (by omega)
  have hminute := hpair (m := a.minute) (n := b.minute) (by omega) (by omega)
  have hsecond := hpair (m := a.second) (n := b.second) (by omega) (by omega)
  simp only [String.lt_iff_toList_lt, isoformat, String.toList_ofList, List.cons_lt_cons_iff, lt_irrefl, false_or,
    true_and, hyear, hmonth, hday, hhour, hminute, hsecond, ending_lt hfa hfb, Before]

/-- Every two times come one before the other, or are the same. -/
theorem before_trichotomy (a b : Datetime) : a.Before b ∨ a = b ∨ b.Before a := by
  have heq : a.year = b.year → a.month = b.month → a.day = b.day → a.hour = b.hour → a.minute = b.minute →
      a.second = b.second → a.microsecond = b.microsecond → a = b := by
    cases a
    cases b
    simp_all
  unfold Before
  by_cases h : a = b
  · exact .inr (.inl h)
  · have hne := mt (fun h : a.year = b.year ∧ a.month = b.month ∧ a.day = b.day ∧ a.hour = b.hour ∧
      a.minute = b.minute ∧ a.second = b.second ∧ a.microsecond = b.microsecond =>
        heq h.1 h.2.1 h.2.2.1 h.2.2.2.1 h.2.2.2.2.1 h.2.2.2.2.2.1 h.2.2.2.2.2.2) h
    omega

/-- The texts of two times compare as the times do. -/
theorem cmp_isoformat (a b : Datetime) : cmp a.isoformat b.isoformat = cmp a.micros b.micros := by
  obtain h | rfl | h := before_trichotomy a b
  · rw [(cmp_eq_lt_iff _ _).mpr (isoformat_lt.mpr h), (cmp_eq_lt_iff _ _).mpr (micros_lt h)]
  · rw [cmp_self_eq_eq, cmp_self_eq_eq]
  · rw [(cmp_eq_gt_iff _ _).mpr (isoformat_lt.mpr h), (cmp_eq_gt_iff _ _).mpr (micros_lt h)]

theorem isoformat_le : a.isoformat ≤ b.isoformat ↔ a.micros ≤ b.micros :=
  le_iff_le_of_cmp_eq_cmp (cmp_isoformat a b)

/-! ## Reading a time back -/

theorem takeDigits_fixed {n k : ℕ} (h : k < 10 ^ n) (acc : ℕ) (s : List Char) :
    takeDigits n acc (fixed n k ++ s) = some (acc * 10 ^ n + k, s) := by
  induction n generalizing k acc with
  | zero =>
    rw [pow_zero, Nat.lt_one_iff] at h
    simp [fixed, takeDigits, h]
  | succ n ih =>
    have hdigit : ∀ d < 10, (Nat.digitChar d).isDigit = true ∧ (Nat.digitChar d).toNat - '0'.toNat = d := by decide
    obtain ⟨his, hval⟩ := hdigit (k / 10 ^ n) (Nat.div_lt_of_lt_mul h)
    have hmod : k % 10 ^ n < 10 ^ n := Nat.mod_lt k (Nat.pow_pos (by decide))
    rw [fixed, List.cons_append, takeDigits, if_pos his, hval, ih hmod]
    have hk := Nat.div_add_mod' k (10 ^ n)
    congr 2
    calc (10 * acc + k / 10 ^ n) * 10 ^ n + k % 10 ^ n
        = acc * 10 ^ (n + 1) + (k / 10 ^ n * 10 ^ n + k % 10 ^ n) := by ring
      _ = acc * 10 ^ (n + 1) + k := by rw [hk]

/-- The text of a time reads back as it. -/
theorem fromisoformat_isoformat (d : Datetime) : fromisoformat d.isoformat = some d.micros := by
  obtain ⟨hh, hn, hs, hf⟩ := d.time_bound
  have hday := d.day_bound.2.trans (daysInMonth_le _ _)
  have hmonth := d.month_bound.2
  have hyear (s : List Char) : takeDigits 4 0 (fixed 4 d.year ++ s) = some (d.year, s) := by
    rw [takeDigits_fixed (n := 4) d.year_bound.2, zero_mul, zero_add]
  have hfield {k : ℕ} (hk : k < 100) (c : Char) (s : List Char) (f : ℕ × List Char → Option ℤ) :
      (takeChar c (c :: (fixed 2 k ++ s))).bind (fun cs => (takeDigits 2 0 cs).bind f) = f (k, s) := by
    rw [takeChar, if_pos rfl, Option.bind_some, takeDigits_fixed (n := 2) hk, zero_mul, zero_add, Option.bind_some]
  have hvalid : 1 ≤ d.year ∧ 1 ≤ d.month ∧ d.month ≤ 12 ∧ 1 ≤ d.day ∧ d.day ≤ daysInMonth d.year d.month ∧
      d.hour < 24 ∧ d.minute < 60 ∧ d.second < 60 :=
    ⟨d.year_bound.1, d.month_bound.1, hmonth, d.day_bound.1, d.day_bound.2, hh, hn, hs⟩
  unfold fromisoformat isoformat
  simp only [String.toList_ofList, Option.bind_eq_bind]
  rw [hyear, Option.bind_some]
  dsimp only
  rw [hfield (by omega)]
  dsimp only
  rw [hfield (by omega)]
  dsimp only
  rw [hfield (by omega)]
  dsimp only
  rw [hfield (by omega)]
  dsimp only
  rw [hfield (by omega)]
  dsimp only
  unfold micros
  by_cases hzero : d.microsecond = 0
  · have hend : ending d.microsecond = ['+', '0', '0', ':', '0', '0'] := by
      rw [ending, if_pos hzero]
      rfl
    rw [hend]
    split
    · rename_i hc
      cases hc
    · rw [Option.bind_some, if_pos ⟨rfl, hvalid⟩, hzero]
  · have hend : ending d.microsecond = '.' :: (fixed 6 d.microsecond ++ "+00:00".toList) := by
      rw [ending, if_neg hzero]
      rfl
    rw [hend]
    split
    · rename_i hc
      cases hc
      rw [takeDigits_fixed (n := 6) hf, zero_mul, zero_add, Option.bind_some, if_pos ⟨rfl, hvalid⟩]
    · rename_i hc
      exact absurd rfl (hc _)

end Datetime

end ControlPlane
