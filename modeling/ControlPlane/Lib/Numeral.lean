import Mathlib.Data.Nat.Digits.Lemmas
import Mathlib.Data.Nat.Prime.Basic
import Mathlib.Tactic.FieldSimp
import Mathlib.Tactic.Ring
import ControlPlane.Lib.Binary64
import ControlPlane.Lib.Json

/-!
# Numerals

The numbers of JSON texts by their parts (`Numeral`): a sign, the digits before
and after the point, an exponent. `scanNumber_lexeme`: a numeral is read up to
its end. `Numeral.ofInt` writes an integer, and `Numeral.ofDouble` a binary64
number as Python's `repr` does, with the fewest digits that read back as it
(`nearest_ofDouble`).
-/

namespace Json

/-- The digit of a number below ten. -/
def digitPoint (d : ℕ) : ℕ := 0x30 + d

structure Numeral where
  minus : Bool := false
  /-- The digits before the point. -/
  int : List ℕ
  /-- The digits after it; no point if there are none. -/
  frac : List ℕ := []
  /-- Whether the exponent is negative, and its digits. -/
  exp : Option (Bool × List ℕ) := none

namespace Numeral

/-- The sign and the integer part. -/
def intText (n : Numeral) : Text := (if n.minus then [0x2D] else []) ++ n.int.map digitPoint

def fracText (n : Numeral) : Text := if n.frac = [] then [] else 0x2E :: n.frac.map digitPoint

def expText (n : Numeral) : Text :=
  n.exp.elim [] fun e => 0x65 :: (if e.1 then 0x2D else 0x2B) :: e.2.map digitPoint

def lexeme (n : Numeral) : Text := n.intText ++ (n.fracText ++ n.expText)

structure Valid (n : Numeral) : Prop where
  int : n.int = [0] ∨ ∃ d ds, n.int = d :: ds ∧ d ≠ 0
  int_lt : ∀ d ∈ n.int, d < 10
  frac_lt : ∀ d ∈ n.frac, d < 10
  exp_lt : ∀ e ∈ n.exp, e.2 ≠ [] ∧ ∀ d ∈ e.2, d < 10

/-- An integer, with no more digits than are converted. -/
def Short (n : Numeral) : Prop := n.frac = [] → n.exp = none → n.int.length ≤ maxDigits

end Numeral

/-! ## Reading a numeral -/

/-- What follows a number does not go on with it. -/
def Ends (rest : Text) : Prop := ∀ c ∈ rest.head?, isDigit c = false ∧ c ≠ 0x2E ∧ c ≠ 0x65 ∧ c ≠ 0x45

section

variable {n : Numeral} {ds : List ℕ} {rest : Text}

theorem isDigit_digitPoint {d : ℕ} (hd : d < 10) : isDigit (digitPoint d) = true := by
  unfold isDigit digitPoint
  exact decide_eq_true (by omega)

theorem digits_append (hds : ∀ d ∈ ds, d < 10) (hr : ∀ c ∈ rest.head?, isDigit c = false) :
    digits (ds.map digitPoint ++ rest) = (ds.map digitPoint, rest) := by
  have hall : ∀ c ∈ ds.map digitPoint, isDigit c = true := List.forall_mem_map.mpr fun d hd =>
    isDigit_digitPoint (hds d hd)
  have htake : rest.takeWhile isDigit = [] ∧ rest.dropWhile isDigit = rest := by
    cases rest with
    | nil => exact ⟨rfl, rfl⟩
    | cons c rest =>
      have hc : isDigit c = false := hr c rfl
      simp only [List.takeWhile_cons, List.dropWhile_cons, hc, Bool.false_eq_true, if_false, and_self]
  rw [digits, List.span_eq_takeWhile_dropWhile, List.takeWhile_append_of_pos hall, List.dropWhile_append_of_pos hall,
    htake.1, htake.2, List.append_nil]

theorem integerPart_intText (hn : n.Valid) (hr : ∀ c ∈ rest.head?, isDigit c = false) :
    integerPart (n.intText ++ rest) = some (n.intText, rest) := by
  -- the sign is taken off, and put back
  have hsign (d : ℕ) (hd : d < 10) (t : Text) :
      integerPart ((if n.minus then [0x2D] else []) ++ digitPoint d :: t) =
        if digitPoint d = 0x30 then some ((if n.minus then [0x2D] else []) ++ [digitPoint d], t)
        else some ((if n.minus then [0x2D] else []) ++ digitPoint d :: (digits t).1, (digits t).2) := by
    have hne : digitPoint d ≠ 0x2D := by
      simp only [digitPoint]
      omega
    cases hm : n.minus with
    | true => simp [integerPart, isDigit_digitPoint hd]
    | false => simp [integerPart, isDigit_digitPoint hd, hne]
  rw [Numeral.intText, List.append_assoc]
  rcases hn.int with h | ⟨d, ds, h, hd⟩
  · rw [h]
    exact (hsign 0 (by decide) rest).trans (if_pos rfl)
  · have hlt := hn.int_lt
    rw [h] at hlt ⊢
    have hne : digitPoint d ≠ 0x30 := by
      simp only [digitPoint]
      omega
    refine (hsign d (hlt d List.mem_cons_self) (ds.map digitPoint ++ rest)).trans ?_
    rw [if_neg hne, digits_append (fun x hx => hlt x (List.mem_cons_of_mem d hx)) hr]
    rfl

theorem fractionPart_fracText (hn : n.Valid) (hr : ∀ c ∈ rest.head?, isDigit c = false ∧ c ≠ 0x2E) :
    fractionPart (n.fracText ++ rest) = (n.fracText, rest) := by
  by_cases hf : n.frac = []
  · have hpoint : rest.head? ≠ some 0x2E := fun h => (hr 0x2E h).2 rfl
    simp [fractionPart, Numeral.fracText, hf, hpoint]
  · have hne : n.frac.map digitPoint ≠ [] := fun h => hf (List.map_eq_nil_iff.mp h)
    simp [fractionPart, Numeral.fracText, hf, digits_append hn.frac_lt fun c hc => (hr c hc).1]

theorem exponentPart_expText (hn : n.Valid) (hr : Ends rest) : exponentPart (n.expText ++ rest) = (n.expText, rest) := by
  cases he : n.exp with
  | none =>
    simp only [Numeral.expText, he, Option.elim_none, List.nil_append]
    cases rest with
    | nil => rfl
    | cons c rest =>
      obtain ⟨-, -, h65, h45⟩ := hr c rfl
      simp [exponentPart, h65, h45]
  | some e =>
    obtain ⟨neg, ds⟩ := e
    obtain ⟨hne, hlt⟩ := hn.exp_lt _ he
    have hdigits : digits (ds.map digitPoint ++ rest) = (ds.map digitPoint, rest) :=
      digits_append hlt fun c hc => (hr c hc).1
    simp only [Numeral.expText, he, Option.elim_some]
    cases neg with
    | true => simp [exponentPart, hdigits, hne]
    | false => simp [exponentPart, hdigits, hne]

theorem expText_head (n : Numeral) (rest : Text) : ∀ c ∈ (n.expText ++ rest).head?, c = 0x65 ∨ c ∈ rest.head? := by
  intro c hc
  cases he : n.exp with
  | none =>
    rw [Numeral.expText, he] at hc
    exact .inr hc
  | some e =>
    rw [Numeral.expText, he] at hc
    exact .inl (Option.some.inj hc).symm

theorem fracText_head (n : Numeral) (rest : Text) : ∀ c ∈ (n.fracText ++ rest).head?, c = 0x2E ∨ c ∈ rest.head? := by
  intro c hc
  unfold Numeral.fracText at hc
  split at hc
  · exact .inr hc
  · exact .inl (Option.some.inj hc).symm

/-- A numeral is read up to its end. -/
theorem scanNumber_lexeme (hn : n.Valid) (hs : n.Short) (hr : Ends rest) :
    scanNumber (n.lexeme ++ rest) = .ok (.number n.lexeme, rest) := by
  have hexp : ∀ c ∈ (n.expText ++ rest).head?, isDigit c = false ∧ c ≠ 0x2E := by
    intro c hc
    rcases expText_head n rest c hc with rfl | hc
    · decide
    · exact ⟨(hr c hc).1, (hr c hc).2.1⟩
  have hfrac : ∀ c ∈ (n.fracText ++ (n.expText ++ rest)).head?, isDigit c = false := by
    intro c hc
    rcases fracText_head n _ c hc with rfl | hc
    · rfl
    · exact (hexp c hc).1
  have hdigits : (n.intText.filter isDigit).length = n.int.length := by
    have hall : ∀ c ∈ n.int.map digitPoint, isDigit c = true := List.forall_mem_map.mpr fun d hd =>
      isDigit_digitPoint (hn.int_lt d hd)
    have hminus : (if n.minus then [0x2D] else []).filter isDigit = [] := by
      split
      · rfl
      · rfl
    rw [Numeral.intText, List.filter_append, List.filter_eq_self.mpr hall, hminus, List.nil_append, List.length_map]
  have hshort : ¬ (n.fracText = [] ∧ n.expText = [] ∧ maxDigits < (n.intText.filter isDigit).length) := by
    rintro ⟨hf, he, hlt⟩
    rw [hdigits] at hlt
    refine absurd (hs ?_ ?_) (Nat.not_le_of_lt hlt)
    · by_contra hne
      rw [Numeral.fracText, if_neg hne] at hf
      cases hf
    · cases hx : n.exp with
      | none => rfl
      | some e =>
        rw [Numeral.expText, hx] at he
        cases he
  rw [Numeral.lexeme, List.append_assoc, List.append_assoc, scanNumber, integerPart_intText hn hfrac]
  simp only [fractionPart_fracText hn hexp, exponentPart_expText hn hr, if_neg hshort, List.append_assoc]

end

/-! ## What a numeral stands for -/

/-- The number that digits write, the highest first. -/
def ofDigits (ds : List ℕ) : ℕ := Nat.ofDigits 10 ds.reverse

namespace Numeral

def exponent (n : Numeral) : ℤ := n.exp.elim 0 fun e => if e.1 then -(ofDigits e.2 : ℤ) else ofDigits e.2

def magnitude (n : Numeral) : ℚ := ofDigits (n.int ++ n.frac) * 10 ^ (n.exponent - n.frac.length)

def value (n : Numeral) : ℚ := if n.minus then -n.magnitude else n.magnitude

end Numeral

def pointDigit (c : ℕ) : ℕ := c - 0x30

/-- The parts of a number's text. -/
def numeralOf (text : Text) : Option Numeral :=
  (integerPart text).bind fun int =>
    let frac := fractionPart int.2
    let exp := exponentPart frac.2
    if exp.2 = [] then some {
      minus := int.1.head? = some 0x2D
      int := (int.1.filter isDigit).map pointDigit
      frac := frac.1.tail.map pointDigit
      exp := exp.1.tail.head?.map fun sign => (sign = 0x2D, (exp.1.drop 2).map pointDigit) }
    else none

section

variable {n : Numeral}

theorem map_pointDigit (ds : List ℕ) : (ds.map digitPoint).map pointDigit = ds := by
  rw [List.map_map]
  refine (List.map_congr_left fun d _ => ?_).trans (List.map_id ds)
  exact Nat.add_sub_cancel_left 0x30 d

/-- A numeral is found again in what it is written as. -/
theorem numeralOf_lexeme (hn : n.Valid) : numeralOf n.lexeme = some n := by
  have hexp : ∀ c ∈ n.expText.head?, isDigit c = false ∧ c ≠ 0x2E := by
    intro c hc
    rcases expText_head n [] c (by rwa [List.append_nil]) with rfl | hc
    · decide
    · cases hc
  have hfrac : ∀ c ∈ (n.fracText ++ n.expText).head?, isDigit c = false := by
    intro c hc
    rcases fracText_head n _ c hc with rfl | hc
    · rfl
    · exact (hexp c hc).1
  have he : exponentPart (n.expText ++ []) = (n.expText, []) := exponentPart_expText hn fun c hc => by cases hc
  rw [List.append_nil] at he
  rw [numeralOf, Numeral.lexeme, integerPart_intText hn hfrac, Option.bind_some]
  simp only [fractionPart_fracText hn hexp, he, if_true, Option.some.injEq]
  obtain ⟨minus, int, frac, exp⟩ := n
  have hint : (List.map digitPoint int).filter isDigit = List.map digitPoint int :=
    List.filter_eq_self.mpr (List.forall_mem_map.mpr fun d hd => isDigit_digitPoint (hn.int_lt d hd))
  have hd : ∀ d : ℕ, digitPoint d ≠ 0x2D := fun d => by
    simp only [digitPoint]
    omega
  have hne : int ≠ [] := by
    rcases hn.int with h | ⟨d, ds, h, -⟩
    · rw [show int = [0] from h]
      exact List.cons_ne_nil 0 []
    · rw [show int = d :: ds from h]
      exact List.cons_ne_nil d ds
  simp only [Numeral.mk.injEq]
  refine ⟨?_, ?_, ?_, ?_⟩
  · cases minus with
    | true => rfl
    | false =>
      obtain ⟨d, ds, rfl⟩ := List.exists_cons_of_ne_nil hne
      simp [Numeral.intText, hd]
  · cases minus with
    | true => simpa [Numeral.intText, hint, isDigit] using map_pointDigit int
    | false => simpa [Numeral.intText, hint] using map_pointDigit int
  · by_cases hf : frac = []
    · simp [Numeral.fracText, hf]
    · simpa [Numeral.fracText, hf] using map_pointDigit frac
  · cases exp with
    | none => rfl
    | some e =>
      obtain ⟨neg, ds⟩ := e
      cases neg with
      | true => simpa [Numeral.expText] using map_pointDigit ds
      | false => simpa [Numeral.expText] using map_pointDigit ds

end

/-! ## Writing integers -/

/-- The digits of a number, the highest first. -/
def digitsOf (n : ℕ) : List ℕ := (Nat.digits 10 n).reverse

theorem ofDigits_digitsOf (n : ℕ) : ofDigits (digitsOf n) = n := by
  rw [ofDigits, digitsOf, List.reverse_reverse, Nat.ofDigits_digits]

theorem digitsOf_lt {n : ℕ} : ∀ d ∈ digitsOf n, d < 10 := fun _ hd =>
  Nat.digits_lt_base (by decide) (List.mem_reverse.mp hd)

/-- The highest digit is not zero. -/
theorem digitsOf_head {n : ℕ} (hn : n ≠ 0) : ∃ d ds, digitsOf n = d :: ds ∧ d ≠ 0 := by
  have hne : Nat.digits 10 n ≠ [] := Nat.digits_ne_nil_iff_ne_zero.mpr hn
  refine ⟨(Nat.digits 10 n).getLast hne, (Nat.digits 10 n).dropLast.reverse, ?_, Nat.getLast_digit_ne_zero 10 hn⟩
  rw [digitsOf]
  conv_lhs => rw [← List.dropLast_concat_getLast hne]
  rw [List.reverse_append]
  rfl

/-- An integer as `repr` writes it. -/
def Numeral.ofInt (z : ℤ) : Numeral where
  minus := decide (z < 0)
  int := if z = 0 then [0] else digitsOf z.natAbs

theorem ofInt_valid (z : ℤ) : (Numeral.ofInt z).Valid := by
  refine ⟨?_, ?_, List.forall_mem_nil _, fun e he => by cases he⟩
  · by_cases hz : z = 0
    · exact .inl (if_pos hz)
    · obtain ⟨d, ds, h, hd⟩ := digitsOf_head (Int.natAbs_ne_zero.mpr hz)
      exact .inr ⟨d, ds, (if_neg hz).trans h, hd⟩
  · intro d hd
    simp only [Numeral.ofInt] at hd
    split at hd
    · cases List.mem_singleton.mp hd
      decide
    · exact digitsOf_lt d hd

/-- The integer that a sign and digits write. -/
def Numeral.toInt (n : Numeral) : ℤ := if n.minus then -(ofDigits n.int : ℤ) else ofDigits n.int

theorem toInt_ofInt (z : ℤ) : (Numeral.ofInt z).toInt = z := by
  have hdigits : (ofDigits (Numeral.ofInt z).int : ℤ) = z.natAbs := by
    by_cases hz : z = 0
    · subst hz
      rfl
    · simp only [Numeral.ofInt, if_neg hz, ofDigits_digitsOf]
  rw [Numeral.toInt, hdigits]
  by_cases hneg : z < 0
  · simp only [Numeral.ofInt, hneg, decide_true, if_true]
    omega
  · simp only [Numeral.ofInt, hneg, decide_false, Bool.false_eq_true, if_false]
    omega

/-! ## Writing decimals -/

namespace Numeral

/-- The digits with the point after the first `place` of them, as `repr` puts
it: with an exponent where the point is far away. -/
def pointed (ds : List ℕ) (place : ℤ) : Numeral :=
  if -4 < place ∧ place ≤ 16 then
    if place ≤ 0 then { int := [0], frac := List.replicate (-place).toNat 0 ++ ds }
    else if place < ds.length then { int := ds.take place.toNat, frac := ds.drop place.toNat }
    else { int := ds ++ List.replicate (place - ds.length).toNat 0, frac := [0] }
  else
    let e := (place - 1).natAbs
    { int := ds.take 1, frac := ds.drop 1, exp := some (place - 1 < 0, if e < 10 then [0, e] else digitsOf e) }

/-- `m * 10 ^ e`, with no zeros at the end of its digits. -/
def ofDecimal (m e : ℤ) : Numeral :=
  if m = 0 then { int := [0], frac := [0] }
  else
    let digits := Nat.digits 10 m.natAbs
    { pointed (digits.dropWhile (· = 0)).reverse (digits.length + e) with minus := m < 0 }

end Numeral

section

variable {ds : List ℕ}

theorem ofDigits_append (xs ys : List ℕ) : ofDigits (xs ++ ys) = ofDigits xs * 10 ^ ys.length + ofDigits ys := by
  rw [ofDigits, List.reverse_append, Nat.ofDigits_append, List.length_reverse, ofDigits, ofDigits]
  ring

theorem ofDigits_zeros (k : ℕ) : ofDigits (List.replicate k 0) = 0 := by
  rw [ofDigits, List.reverse_replicate]
  induction k with
  | zero => rfl
  | succ k ih => rw [List.replicate_succ, Nat.ofDigits_cons, ih]

theorem exponent_pad (e : ℕ) : ofDigits (if e < 10 then [0, e] else digitsOf e) = e := by
  split
  · simp [ofDigits, Nat.ofDigits]
  · exact ofDigits_digitsOf e

/-- Wherever the point is put, the number is the same. -/
theorem pointed_magnitude (place : ℤ) (hds : ds ≠ []) :
    (Numeral.pointed ds place).magnitude = ofDigits ds * 10 ^ (place - ds.length) := by
  have hlen : 1 ≤ ds.length := List.length_pos_of_ne_nil hds
  have hten : (10 : ℚ) ≠ 0 := by norm_num
  unfold Numeral.pointed
  split
  · rename_i hnear
    split
    · rename_i hle
      have hvalue : ofDigits ([0] ++ (List.replicate (-place).toNat 0 ++ ds)) = ofDigits ds := by
        rw [ofDigits_append, ofDigits_append, ofDigits_zeros]
        simp [ofDigits]
      have hexp : (0 : ℤ) - ((-place).toNat + ds.length : ℕ) = place - ds.length := by omega
      simp only [Numeral.magnitude, Numeral.exponent, Option.elim_none, hvalue, List.length_append,
        List.length_replicate, hexp]
    · split
      · rename_i hgt hlt
        have hexp : (0 : ℤ) - ((ds.length - place.toNat : ℕ) : ℤ) = place - ds.length := by omega
        simp only [Numeral.magnitude, Numeral.exponent, Option.elim_none, List.take_append_drop, List.length_drop, hexp]
      · rename_i hgt hge
        have hvalue : ofDigits (ds ++ List.replicate (place - ds.length).toNat 0 ++ [0]) =
            ofDigits ds * 10 ^ ((place - ds.length).toNat + 1) := by
          rw [ofDigits_append, ofDigits_append, ofDigits_zeros, List.length_replicate, pow_succ]
          simp [ofDigits]
          ring
        have hexp : (((place - ds.length).toNat + 1 : ℕ) : ℤ) + (0 - (1 : ℕ)) = place - ds.length := by omega
        simp only [Numeral.magnitude, Numeral.exponent, Option.elim_none, hvalue, List.length_singleton]
        rw [Nat.cast_mul, mul_assoc, Nat.cast_pow, Nat.cast_ofNat, ← zpow_natCast, ← zpow_add₀ hten, hexp]
  · have hexponent : (if (place - 1 : ℤ) < 0 then -((place - 1).natAbs : ℤ) else (place - 1).natAbs) = place - 1 := by
      split
      · omega
      · omega
    have hexp : place - 1 - ((ds.length - 1 : ℕ) : ℤ) = place - ds.length := by omega
    simp only [Numeral.magnitude, Numeral.exponent, Option.elim_some, exponent_pad, decide_eq_true_eq,
      hexponent, List.take_append_drop, List.length_drop, hexp]

theorem pointed_valid (place : ℤ) (hds : ∃ d ds', ds = d :: ds' ∧ d ≠ 0) (hlt : ∀ d ∈ ds, d < 10) : (Numeral.pointed ds place).Valid := by
  have hzeros (k : ℕ) : ∀ d ∈ List.replicate k 0, d < 10 := fun d hd => by
    rw [List.eq_of_mem_replicate hd]
    decide
  have hnone {x : Bool × List ℕ} (h : x ∈ (none : Option (Bool × List ℕ))) : x.2 ≠ [] ∧ ∀ d ∈ x.2, d < 10 := by cases h
  obtain ⟨d, ds', rfl, hd⟩ := hds
  unfold Numeral.pointed
  split
  · split
    · refine ⟨.inl rfl, ?_, ?_, fun _ => hnone⟩
      · exact List.forall_mem_singleton.mpr (by decide)
      · exact List.forall_mem_append.mpr ⟨hzeros _, hlt⟩
    · rename_i hpos
      split
      · refine ⟨.inr ⟨d, ds'.take (place.toNat - 1), ?_, hd⟩, ?_, ?_, fun _ => hnone⟩
        · exact List.take_cons (by omega)
        · exact fun x hx => hlt x (List.mem_of_mem_take hx)
        · exact fun x hx => hlt x (List.mem_of_mem_drop hx)
      · refine ⟨.inr ⟨d, _, rfl, hd⟩, ?_, ?_, fun _ => hnone⟩
        · exact List.forall_mem_append.mpr ⟨hlt, hzeros _⟩
        · exact List.forall_mem_singleton.mpr (by decide)
  · refine ⟨.inr ⟨d, [], rfl, hd⟩, ?_, ?_, fun e he => ?_⟩
    · exact fun x hx => hlt x (List.mem_of_mem_take hx)
    · exact fun x hx => hlt x (List.mem_of_mem_drop hx)
    · cases he
      split
      · rename_i he
        refine ⟨List.cons_ne_nil _ _, fun x hx => ?_⟩
        simp only [List.mem_cons, List.not_mem_nil, or_false] at hx
        omega
      · rename_i he
        obtain ⟨x, xs, hx, -⟩ := digitsOf_head (show (place - 1).natAbs ≠ 0 by omega)
        rw [hx]
        exact ⟨List.cons_ne_nil x xs, fun y hy => digitsOf_lt y (hx ▸ hy)⟩

/-- A numeral with a point shows that it is no integer. -/
theorem pointed_float (place : ℤ) (hds : ds ≠ []) :
    (Numeral.pointed ds place).frac ≠ [] ∨ (Numeral.pointed ds place).exp ≠ none := by
  unfold Numeral.pointed
  split
  · left
    split
    · exact List.append_ne_nil_of_right_ne_nil _ hds
    · split
      · rename_i hlt
        exact fun h => absurd (List.drop_eq_nil_iff.mp h) (by omega)
      · exact List.cons_ne_nil 0 []
  · exact .inr (Option.some_ne_none _)

/-- The digits of a number without the zeros at its end. -/
theorem digits_strip {m : ℕ} (hm : m ≠ 0) :
    ∃ k, (∃ d ds, ((Nat.digits 10 m).dropWhile (· = 0)).reverse = d :: ds ∧ d ≠ 0) ∧
      ofDigits ((Nat.digits 10 m).dropWhile (· = 0)).reverse * 10 ^ k = m ∧
      ((Nat.digits 10 m).dropWhile (· = 0)).length + k = (Nat.digits 10 m).length := by
  generalize hz : (Nat.digits 10 m).takeWhile (· = 0) = zeros
  generalize hr : (Nat.digits 10 m).dropWhile (· = 0) = rest
  have hsplit : zeros ++ rest = Nat.digits 10 m := by rw [← hz, ← hr, List.takeWhile_append_dropWhile]
  have hzeros : zeros = List.replicate zeros.length 0 := by
    refine List.eq_replicate_of_mem fun d hd => ?_
    rw [← hz] at hd
    have hd := List.mem_takeWhile_imp hd
    simpa using hd
  have hofZeros : Nat.ofDigits 10 zeros = 0 := by
    have h := ofDigits_zeros zeros.length
    rwa [ofDigits, List.reverse_replicate, ← hzeros] at h
  have hvalue : 10 ^ zeros.length * Nat.ofDigits 10 rest = m := by
    have h : Nat.ofDigits 10 (zeros ++ rest) = Nat.ofDigits 10 zeros + 10 ^ zeros.length * Nat.ofDigits 10 rest :=
      Nat.ofDigits_append
    rw [hsplit, Nat.ofDigits_digits, hofZeros, zero_add] at h
    exact h.symm
  refine ⟨zeros.length, ?_, ?_, ?_⟩
  · have hne : rest ≠ [] := by
      rintro rfl
      exact hm (by simpa using hvalue.symm)
    have hdigits : Nat.digits 10 m ≠ [] := Nat.digits_ne_nil_iff_ne_zero.mpr hm
    have hlast : rest.getLast hne = (Nat.digits 10 m).getLast hdigits := by
      simp only [← hsplit, List.getLast_append_of_ne_nil _ hne]
    refine ⟨rest.getLast hne, rest.dropLast.reverse, ?_, hlast ▸ Nat.getLast_digit_ne_zero 10 hm⟩
    conv_lhs => rw [← List.dropLast_concat_getLast hne]
    rw [List.reverse_append]
    rfl
  · rw [ofDigits, List.reverse_reverse, mul_comm]
    exact hvalue
  · rw [← hsplit, List.length_append, add_comm]

theorem ofDecimal_valid (m e : ℤ) : (Numeral.ofDecimal m e).Valid := by
  unfold Numeral.ofDecimal
  split
  · exact ⟨.inl rfl, List.forall_mem_singleton.mpr (by decide), List.forall_mem_singleton.mpr (by decide),
      fun e he => by cases he⟩
  · rename_i hm
    obtain ⟨k, hhead, -, -⟩ := digits_strip (Int.natAbs_ne_zero.mpr hm)
    have hv := pointed_valid ((Nat.digits 10 m.natAbs).length + e) hhead fun d hd =>
      Nat.digits_lt_base (by decide) ((List.dropWhile_suffix _).mem (List.mem_reverse.mp hd))
    exact ⟨hv.int, hv.int_lt, hv.frac_lt, hv.exp_lt⟩

theorem ofDecimal_float (m e : ℤ) : (Numeral.ofDecimal m e).frac ≠ [] ∨ (Numeral.ofDecimal m e).exp ≠ none := by
  unfold Numeral.ofDecimal
  split
  · exact .inl (List.cons_ne_nil 0 [])
  · rename_i hm
    obtain ⟨k, ⟨d, ds, hhead, -⟩, -, -⟩ := digits_strip (Int.natAbs_ne_zero.mpr hm)
    refine pointed_float _ ?_
    rw [hhead]
    exact List.cons_ne_nil d ds

theorem ofDecimal_value (m e : ℤ) : (Numeral.ofDecimal m e).value = m * 10 ^ e := by
  unfold Numeral.ofDecimal
  split
  · rename_i hm
    simp [Numeral.value, Numeral.magnitude, ofDigits, Nat.ofDigits, hm]
  · rename_i hm
    have hten : (10 : ℚ) ≠ 0 := by norm_num
    obtain ⟨k, ⟨d, ds, hhead, -⟩, hvalue, hlen⟩ := digits_strip (Int.natAbs_ne_zero.mpr hm)
    have hne : ((Nat.digits 10 m.natAbs).dropWhile (· = 0)).reverse ≠ [] := by
      rw [hhead]
      exact List.cons_ne_nil d ds
    have hp := pointed_magnitude ((Nat.digits 10 m.natAbs).length + e) hne
    have hplace : ((Nat.digits 10 m.natAbs).length : ℤ) + e -
        ((Nat.digits 10 m.natAbs).dropWhile (· = 0)).reverse.length = k + e := by
      rw [List.length_reverse, ← hlen]
      push_cast
      ring
    have habs : (m.natAbs : ℚ) * 10 ^ e =
        ofDigits ((Nat.digits 10 m.natAbs).dropWhile (· = 0)).reverse * 10 ^ (k + e) := by
      conv_lhs => rw [← hvalue]
      rw [Nat.cast_mul, Nat.cast_pow, Nat.cast_ofNat, mul_assoc, zpow_add₀ hten, zpow_natCast]
    rw [hplace, ← habs] at hp
    rw [Numeral.value]
    refine (ite_congr rfl (fun _ => congrArg Neg.neg hp) fun _ => hp).trans ?_
    simp only [decide_eq_true_eq]
    split
    · rename_i hneg
      rw [← neg_mul, show (m : ℚ) = -(m.natAbs : ℚ) by rw [← Int.cast_natCast, ← Int.cast_neg]; congr 1; omega]
    · rename_i hneg
      rw [show (m : ℚ) = (m.natAbs : ℚ) by rw [← Int.cast_natCast]; congr 1; omega]

end

/-! ## Writing binary64 numbers -/

open Binary64 (Double nearest? decimals halfEven round_form)

/-- `Binary64.decimals`, each as an integer and a power of ten. -/
def decimalPairs (q : ℚ) (k : ℕ) : List (ℤ × ℤ) :=
  let e := Int.log 10 |q| + 1 - k
  [(halfEven (q / 10 ^ e), e), (⌊q / 10 ^ e⌋, e), (⌈q / 10 ^ e⌉, e)]

def pairValue (p : ℤ × ℤ) : ℚ := p.1 * 10 ^ p.2

/-- The shortest decimal that reads back as the number; where none of 17 digits
did, all its digits. -/
def shortest (d : Double) : ℤ × ℤ :=
  (((List.range' 1 17).flatMap (decimalPairs d.val)).find? fun p => nearest? (pairValue p) = some d).getD
    (d.val.num * 5 ^ d.val.den.log2, -d.val.den.log2)

/-- A float as `repr` writes it. -/
def Numeral.ofDouble (d : Double) : Numeral := Numeral.ofDecimal (shortest d).1 (shortest d).2

theorem den_double (d : Double) : d.val.den = 2 ^ d.val.den.log2 := by
  have hpow : ∃ k, d.val.den = 2 ^ k := by
    obtain ⟨n, e, h, -, -⟩ := round_form d.val
    rw [d.round_val] at h
    cases e with
    | ofNat e =>
      refine ⟨0, ?_⟩
      have hint : d.val = ((n * 2 ^ e : ℤ) : ℚ) := by
        rw [h]
        push_cast
        rfl
      rw [hint, Rat.den_intCast, pow_zero]
    | negSucc e =>
      have hdiv : d.val = (n : ℚ) / ((2 ^ (e + 1) : ℕ) : ℤ) := by
        rw [h, zpow_negSucc, div_eq_mul_inv]
        push_cast
        rfl
      have hdvd := Rat.den_dvd n ((2 ^ (e + 1) : ℕ) : ℤ)
      rw [Rat.divInt_eq_div, ← hdiv] at hdvd
      obtain ⟨k, -, hk⟩ := (Nat.dvd_prime_pow Nat.prime_two).mp (Int.natCast_dvd_natCast.mp hdvd)
      exact ⟨k, hk⟩
  obtain ⟨k, hk⟩ := hpow
  rw [hk, Nat.log2_two_pow]

theorem shortest_value (d : Double) : pairValue (shortest d) = d.repr := by
  have hpairs : (List.range' 1 17).flatMap (decimals d.val) =
      ((List.range' 1 17).flatMap (decimalPairs d.val)).map pairValue := by
    rw [List.map_flatMap]
    rfl
  have hexact : pairValue (d.val.num * 5 ^ d.val.den.log2, -d.val.den.log2) = d.val := by
    have hden : (d.val.den : ℚ) = 2 ^ d.val.den.log2 := by
      conv_lhs => rw [den_double d]
      push_cast
      rfl
    have hten : (10 : ℚ) ^ d.val.den.log2 = 2 ^ d.val.den.log2 * 5 ^ d.val.den.log2 := by
      rw [← mul_pow]
      norm_num
    have hfive : (5 : ℚ) ^ d.val.den.log2 ≠ 0 := pow_ne_zero _ (by norm_num)
    calc pairValue (d.val.num * 5 ^ d.val.den.log2, -d.val.den.log2)
        = d.val.num * 5 ^ d.val.den.log2 / (2 ^ d.val.den.log2 * 5 ^ d.val.den.log2) := by
          rw [pairValue, zpow_neg, zpow_natCast, hten, div_eq_mul_inv]
          push_cast
          rfl
      _ = d.val.num / d.val.den := by rw [mul_div_mul_right _ _ hfive, hden]
      _ = d.val := Rat.num_div_den d.val
  rw [Double.repr, hpairs, List.find?_map, shortest]
  simp only [Function.comp_def]
  cases ((List.range' 1 17).flatMap (decimalPairs d.val)).find? fun p => decide (nearest? (pairValue p) = some d) with
  | none => exact hexact
  | some p => rfl

theorem ofDouble_valid (d : Double) : (Numeral.ofDouble d).Valid := by
  unfold Numeral.ofDouble
  exact ofDecimal_valid _ _

theorem ofDouble_float (d : Double) : ¬ ((Numeral.ofDouble d).frac = [] ∧ (Numeral.ofDouble d).exp = none) := by
  unfold Numeral.ofDouble
  rintro ⟨hf, he⟩
  rcases ofDecimal_float (shortest d).1 (shortest d).2 with h | h
  · exact h hf
  · exact h he

/-- What is written reads back as the number. -/
theorem nearest_ofDouble (d : Double) : nearest? (Numeral.ofDouble d).value = some d := by
  rw [Numeral.ofDouble, ofDecimal_value]
  have hv := shortest_value d
  rw [pairValue] at hv
  rw [hv, Binary64.nearest_repr]

end Json
