import ControlPlane.Registry.ReadBack

/-!
# What comes back, by value

JSON that was stored comes back equal where numbers compare by value
(`sameValue`), except for the numbers that `keepsNumbers` leaves out: one of
29 digits or more before the point cannot be read, and a float that `str`
writes as a whole number comes back as that int, which from 2 ** 53 on need
not be its value: `str(2.0 ** 60)` is `1.152921504606847e+18`, which is 24
more. Where a number is the decimal Python prints of it, its length is all
there is to it.

* `keepsFloat_of_small`: floats below 2 ** 53 are kept.
* `comes_back_iff`, `dict_comes_back_iff`: exactly the JSON whose numbers are
  kept comes back equal.
* `numbers_survive_iff`: exactly the values whose numbers have at most 28
  digits before the point come back with the numbers that were printed.
-/

namespace ControlPlane

open Binary64 (Double nearest_repr nearest_eq_some round_mono round_int)

/-! ## Equality -/

/-- `x == y`, of values that are neither lists nor dicts. -/
def sameScalar : Value → Value → Bool
  | .null, .null => true
  | .bool a, .bool b => a = b
  | .str s, .str t => s = t
  | x, y =>
    match x.number?, y.number? with
    | some a, some b => a.cmp b = some .eq
    | _, _ => false

mutual

/-- `x == y`: numbers by value, a dict's items in their order. -/
def sameValue : Value → Value → Bool
  | .list xs, .list ys => sameList xs ys
  | .dict d, .dict e => sameDict d e
  | x, y => sameScalar x y

def sameList : List Value → List Value → Bool
  | [], [] => true
  | x :: xs, y :: ys => sameValue x y && sameList xs ys
  | _, _ => false

def sameDict : Attrs → Attrs → Bool
  | [], [] => true
  | (k, x) :: xs, (l, y) :: ys => k = l && sameValue x y && sameDict xs ys
  | _, _ => false

end

/-! ## The numbers that are kept -/

/-- `Decimal(str(x))` has at most 28 digits before the point, and where it is
whole, it is the float's value. -/
def keepsFloat (d : Double) : Bool :=
  d.repr.num.natAbs / d.repr.den < 10 ^ 28 ∧ (d.repr.den = 1 → d.repr = d.val)

mutual

/-- Every number in it can be read back as it was. -/
def keepsNumbers : Value → Bool
  | .int n => n.natAbs < 10 ^ 28
  | .float (.fin d) => keepsFloat d
  | .list xs => keepsList xs
  | .dict kvs => keepsDict kvs
  | _ => true

def keepsList : List Value → Bool
  | [] => true
  | x :: xs => keepsNumbers x && keepsList xs

def keepsDict : Attrs → Bool
  | [] => true
  | (_, x) :: xs => keepsNumbers x && keepsDict xs

end

theorem cmp_fin_eq {a b : ℚ} : (Ext.fin a).cmp (.fin b) = some .eq ↔ a = b := by
  simp [Ext.cmp]

/-- How many digits stand before the point. -/
theorem natAbs_div_lt_iff {q : ℚ} {n : ℕ} : q.num.natAbs / q.den < n ↔ |q| < n := by
  rw [Nat.div_lt_iff_lt_mul q.pos]
  have hnum : (q.num.natAbs : ℚ) = |q| * q.den := by
    rw [Nat.cast_natAbs, Int.cast_abs, ← Rat.mul_den_eq_num q, abs_mul, Nat.abs_cast]
  have hden : (0 : ℚ) < q.den := by exact_mod_cast q.pos
  rw [← Nat.cast_lt (α := ℚ), hnum, Nat.cast_mul, mul_lt_mul_iff_left₀ hden]

/-- Below 2 ** 53 a float that is written as a whole number is that number. -/
theorem keepsFloat_of_small {d : Double} (h : |d.val| < 2 ^ 53) : keepsFloat d = true := by
  obtain ⟨hlo, hhi⟩ := abs_lt.mp h
  have hround : d.val = Binary64.round d.repr := nearest_eq_some (nearest_repr d)
  have hkept : Binary64.round ((2 ^ 53 : ℤ) : ℚ) = 2 ^ 53 := (round_int (by decide)).trans (by norm_num)
  have hkept' : Binary64.round ((-2 ^ 53 : ℤ) : ℚ) = -2 ^ 53 := (round_int (by decide)).trans (by norm_num)
  -- rounding is monotone and keeps 2 ** 53, so the decimal is not past it either
  have hle : d.repr ≤ ((2 ^ 53 : ℤ) : ℚ) := by
    by_contra hlt
    have hmono := round_mono (le_of_lt (not_le.mp hlt))
    linarith
  have hge : ((-2 ^ 53 : ℤ) : ℚ) ≤ d.repr := by
    by_contra hlt
    have hmono := round_mono (le_of_lt (not_le.mp hlt))
    linarith
  rw [keepsFloat, decide_eq_true_iff]
  constructor
  · have habs : |d.repr| ≤ 2 ^ 53 := abs_le.mpr ⟨by push_cast at hge; exact hge, by push_cast at hle; exact hle⟩
    exact natAbs_div_lt_iff.mpr (habs.trans_lt (by norm_num))
  · intro hwhole
    have hint : ((d.repr.num : ℤ) : ℚ) = d.repr := (Rat.den_eq_one_iff _).mp hwhole
    rw [hround, ← hint, round_int]
    rw [← hint] at hle hge
    exact abs_le.mpr ⟨by exact_mod_cast hge, by exact_mod_cast hle⟩

example : (Binary64.nearest? (2 ^ 60)).map keepsFloat = some false := by decide +kernel

/-- An int of at most 28 digits is read as it was. -/
theorem numberOfDecimal_int {n : ℤ} (h : n.natAbs < 10 ^ 28) : numberOfDecimal (.fin n) = some (.int n) := by
  rw [numberOfDecimal, Rat.num_intCast, Rat.den_intCast, Nat.div_one, if_neg (by omega), if_pos rfl]

theorem int_back {n : ℤ} {s : Value} (hs : serialize (.int n) = some s) :
    (∃ w, fromDecimal s = some w ∧ sameValue w (.int n) = true) ↔ n.natAbs < 10 ^ 28 := by
  rw [serialize] at hs
  split at hs
  · cases hs
    rw [fromDecimal]
    constructor
    · rintro ⟨w, hw, -⟩
      by_contra hn
      rw [numberOfDecimal, Rat.num_intCast, Rat.den_intCast, Nat.div_one, if_pos (by omega)] at hw
      cases hw
    · intro hn
      refine ⟨.int n, numberOfDecimal_int hn, ?_⟩
      simp [sameValue, sameScalar, Value.number?, cmp_fin_eq]
  · cases hs

theorem float_back {d : Double} {s : Value} (hs : serialize (toDecimal (.float (.fin d))) = some s) :
    (∃ w, fromDecimal s = some w ∧ sameValue w (.float (.fin d)) = true) ↔ keepsFloat d = true := by
  rw [toDecimal, decimalOfFloat, Ext.map, serialize] at hs
  split at hs
  · cases hs
    rw [fromDecimal, numberOfDecimal, keepsFloat, decide_eq_true_iff]
    by_cases hlarge : 10 ^ 28 ≤ d.repr.num.natAbs / d.repr.den
    · rw [if_pos hlarge]
      constructor
      · rintro ⟨w, hw, -⟩
        cases hw
      · intro h
        omega
    rw [if_neg hlarge]
    have hsmall : d.repr.num.natAbs / d.repr.den < 10 ^ 28 := by omega
    by_cases hwhole : d.repr.den = 1
    · have hint : ((d.repr.num : ℤ) : ℚ) = d.repr := (Rat.den_eq_one_iff _).mp hwhole
      rw [if_pos hwhole]
      simp only [Option.some.injEq, exists_eq_left', sameValue, sameScalar, Value.number?, floatValue, Ext.map,
        decide_eq_true_iff, cmp_fin_eq, hint]
      exact ⟨fun h => ⟨hsmall, fun _ => h⟩, fun h => h.2 hwhole⟩
    · rw [if_neg hwhole, nearest_repr]
      refine iff_of_true ⟨_, rfl, ?_⟩ ⟨hsmall, fun h => absurd h hwhole⟩
      simp [sameValue, sameScalar, Value.number?, floatValue, Ext.map, cmp_fin_eq]
  · cases hs

mutual

/-- JSON comes back equal exactly if its numbers are kept. -/
theorem comes_back_iff {s : Value} : (v : Value) → isJson v = true → serialize (toDecimal v) = some s →
    ((∃ w, fromDecimal s = some w ∧ sameValue w v = true) ↔ keepsNumbers v = true)
  | .null, _, hs => by
    cases hs
    exact iff_of_true ⟨.null, rfl, rfl⟩ rfl
  | .bool b, _, hs => by
    cases hs
    exact iff_of_true ⟨.bool b, rfl, by simp [sameValue, sameScalar]⟩ rfl
  | .str t, _, hs => by
    cases hs
    exact iff_of_true ⟨.str t, rfl, by simp [sameValue, sameScalar]⟩ rfl
  | .int n, _, hs => by
    rw [keepsNumbers, decide_eq_true_iff]
    exact int_back hs
  | .float (.fin d), _, hs => by
    rw [keepsNumbers]
    exact float_back hs
  | .float (.inf _), hj, _ => by cases hj
  | .float .nan, hj, _ => by cases hj
  | .decimal _, hj, _ => by cases hj
  | .list xs, hj, hs => by
    rw [toDecimal, serialize] at hs
    obtain ⟨stored, hstored, rfl⟩ := Option.map_eq_some_iff.mp hs
    have ih := list_comes_back_iff xs hj hstored
    rw [keepsNumbers, ← ih, fromDecimal]
    constructor
    · rintro ⟨w, hw, hsame⟩
      obtain ⟨ys, hys, rfl⟩ := Option.map_eq_some_iff.mp hw
      exact ⟨ys, hys, hsame⟩
    · rintro ⟨ys, hys, hsame⟩
      exact ⟨.list ys, by rw [hys]; rfl, hsame⟩
  | .dict kvs, hj, hs => by
    rw [toDecimal, serialize] at hs
    obtain ⟨stored, hstored, rfl⟩ := Option.map_eq_some_iff.mp hs
    have ih := dict_comes_back_iff kvs hj hstored
    rw [keepsNumbers, ← ih, fromDecimal]
    constructor
    · rintro ⟨w, hw, hsame⟩
      obtain ⟨d, hd, rfl⟩ := Option.map_eq_some_iff.mp hw
      exact ⟨d, hd, hsame⟩
    · rintro ⟨d, hd, hsame⟩
      exact ⟨.dict d, by rw [hd]; rfl, hsame⟩

theorem list_comes_back_iff {s : List Value} : (xs : List Value) → isJsonList xs = true →
    serializeList (toDecimalList xs) = some s →
      ((∃ ys, fromDecimalList s = some ys ∧ sameList ys xs = true) ↔ keepsList xs = true)
  | [], _, hs => by
    cases hs
    exact iff_of_true ⟨[], rfl, rfl⟩ rfl
  | x :: xs, hj, hs => by
    rw [isJsonList, Bool.and_eq_true] at hj
    simp only [toDecimalList, serializeList, Option.bind_eq_bind, Option.bind_eq_some_iff, Option.pure_def,
      Option.some.injEq] at hs
    obtain ⟨v, hv, vs, hvs, rfl⟩ := hs
    rw [keepsList, Bool.and_eq_true, ← comes_back_iff x hj.1 hv, ← list_comes_back_iff xs hj.2 hvs]
    simp only [fromDecimalList, Option.bind_eq_bind, Option.bind_eq_some_iff, Option.pure_def, Option.some.injEq]
    constructor
    · rintro ⟨ys, ⟨w, hw, ws, hws, rfl⟩, hsame⟩
      rw [sameList, Bool.and_eq_true] at hsame
      exact ⟨⟨w, hw, hsame.1⟩, ws, hws, hsame.2⟩
    · rintro ⟨⟨w, hw, hsame⟩, ws, hws, hrest⟩
      refine ⟨w :: ws, ⟨w, hw, ws, hws, rfl⟩, ?_⟩
      rw [sameList, hsame, hrest, Bool.and_self]

theorem dict_comes_back_iff {s : Attrs} : (d : Attrs) → isJsonDict d = true →
    serializeDict (toDecimalDict d) = some s →
      ((∃ e, fromDecimalDict s = some e ∧ sameDict e d = true) ↔ keepsDict d = true)
  | [], _, hs => by
    cases hs
    exact iff_of_true ⟨[], rfl, rfl⟩ rfl
  | (k, x) :: xs, hj, hs => by
    rw [isJsonDict, Bool.and_eq_true] at hj
    simp only [toDecimalDict, serializeDict, Option.bind_eq_bind, Option.bind_eq_some_iff, Option.pure_def,
      Option.some.injEq] at hs
    obtain ⟨v, hv, vs, hvs, rfl⟩ := hs
    rw [keepsDict, Bool.and_eq_true, ← comes_back_iff x hj.1 hv, ← dict_comes_back_iff xs hj.2 hvs]
    simp only [fromDecimalDict, Option.bind_eq_bind, Option.bind_eq_some_iff, Option.pure_def, Option.some.injEq]
    constructor
    · rintro ⟨e, ⟨w, hw, ws, hws, rfl⟩, hsame⟩
      rw [sameDict, Bool.and_eq_true, Bool.and_eq_true] at hsame
      exact ⟨⟨w, hw, hsame.1.2⟩, ws, hws, hsame.2⟩
    · rintro ⟨⟨w, hw, hsame⟩, ws, hws, hrest⟩
      refine ⟨(k, w) :: ws, ⟨w, hw, ws, hws, rfl⟩, ?_⟩
      simp [sameDict, hsame, hrest]

end

/-! ## Numbers as they are printed -/

mutual

/-- The numbers in a value, as the decimals Python prints. -/
def numbers : Value → List PyDecimal
  | .int n => [.fin n]
  | .float x => [decimalOfFloat x]
  | .decimal d => [d]
  | .list xs => numbersList xs
  | .dict kvs => numbersDict kvs
  | _ => []

def numbersList : List Value → List PyDecimal
  | [] => []
  | x :: xs => numbers x ++ numbersList xs

def numbersDict : Attrs → List PyDecimal
  | [] => []
  | (_, x) :: xs => numbers x ++ numbersDict xs

end

mutual

/-- The value with its numbers as the decimals Python prints. -/
def printed : Value → Value
  | .int n => .decimal (.fin n)
  | .float x => .decimal (decimalOfFloat x)
  | .list xs => .list (printedList xs)
  | .dict kvs => .dict (printedDict kvs)
  | v => v

def printedList : List Value → List Value
  | [] => []
  | x :: xs => printed x :: printedList xs

def printedDict : Attrs → Attrs
  | [] => []
  | (k, x) :: xs => (k, printed x) :: printedDict xs

end

/-- What an int or a float is printed as. -/
def IsPrinted (q : ℚ) : Prop := q.den = 1 ∨ ∃ d : Double, d.repr = q

/-- Every number is finite, and one that Python prints. -/
def AllPrinted (ns : List PyDecimal) : Prop := ∀ x ∈ ns, ∃ q, x = .fin q ∧ IsPrinted q

/-- Every number has at most 28 digits before the point. -/
def AllShort (ns : List PyDecimal) : Prop := ∀ q, .fin q ∈ ns → |q| < 10 ^ 28

variable {ms ns : List PyDecimal}

theorem allPrinted_append : AllPrinted (ms ++ ns) ↔ AllPrinted ms ∧ AllPrinted ns := List.forall_mem_append

theorem allShort_append : AllShort (ms ++ ns) ↔ AllShort ms ∧ AllShort ns := by
  simp only [AllShort, List.mem_append, or_imp, forall_and]

/-- A number that is printed is read back as printed, unless it is too long. -/
theorem number_survives_iff {q : ℚ} (hq : IsPrinted q) :
    (∃ w, numberOfDecimal (.fin q) = some w ∧ printed w = .decimal (.fin q)) ↔ |q| < 10 ^ 28 := by
  have hshort := natAbs_div_lt_iff (q := q) (n := 10 ^ 28)
  rw [show ((10 ^ 28 : ℕ) : ℚ) = 10 ^ 28 by norm_num] at hshort
  rw [← hshort, numberOfDecimal]
  by_cases hlong : 10 ^ 28 ≤ q.num.natAbs / q.den
  · rw [if_pos hlong]
    refine iff_of_false ?_ (by omega)
    rintro ⟨w, hw, -⟩
    cases hw
  rw [if_neg hlong]
  refine iff_of_true ?_ (by omega)
  by_cases hwhole : q.den = 1
  · have hint : ((q.num : ℤ) : ℚ) = q := (Rat.den_eq_one_iff _).mp hwhole
    rw [if_pos hwhole]
    exact ⟨_, rfl, by rw [printed, hint]⟩
  · obtain ⟨d, rfl⟩ := hq.resolve_left hwhole
    rw [if_neg hwhole, nearest_repr]
    exact ⟨_, rfl, rfl⟩

mutual

/-- The table holds a value as it is printed. -/
theorem serialize_printed {s : Value} : (v : Value) → serialize (toDecimal v) = some s → s = printed v
  | .null, h => by cases h; rfl
  | .bool b, h => by cases h; rfl
  | .str t, h => by cases h; rfl
  | .int n, h => by
    change serialize (.int n) = some s at h
    rw [serialize] at h
    split at h <;> cases h
    rfl
  | .float x, h => by
    rw [toDecimal] at h
    rw [printed]
    cases hx : decimalOfFloat x with
    | fin q =>
      rw [hx, serialize] at h
      split at h <;> cases h
      rfl
    | inf neg => rw [hx] at h; cases h
    | nan => rw [hx] at h; cases h
  | .decimal (.fin q), h => by
    change serialize (.decimal (.fin q)) = some s at h
    rw [serialize] at h
    split at h <;> cases h
    rfl
  | .decimal (.inf _), h => by cases h
  | .decimal .nan, h => by cases h
  | .list xs, h => by
    rw [toDecimal, serialize] at h
    obtain ⟨stored, hstored, rfl⟩ := Option.map_eq_some_iff.mp h
    rw [printed, serializeList_printed xs hstored]
  | .dict kvs, h => by
    rw [toDecimal, serialize] at h
    obtain ⟨stored, hstored, rfl⟩ := Option.map_eq_some_iff.mp h
    rw [printed, serializeDict_printed kvs hstored]

theorem serializeList_printed {s : List Value} :
    (xs : List Value) → serializeList (toDecimalList xs) = some s → s = printedList xs
  | [], h => by cases h; rfl
  | x :: xs, h => by
    simp only [toDecimalList, serializeList, Option.bind_eq_bind, Option.bind_eq_some_iff, Option.pure_def,
      Option.some.injEq] at h
    obtain ⟨v, hv, vs, hvs, rfl⟩ := h
    rw [printedList, serialize_printed x hv, serializeList_printed xs hvs]

theorem serializeDict_printed {s : Attrs} :
    (d : Attrs) → serializeDict (toDecimalDict d) = some s → s = printedDict d
  | [], h => by cases h; rfl
  | (k, x) :: xs, h => by
    simp only [toDecimalDict, serializeDict, Option.bind_eq_bind, Option.bind_eq_some_iff, Option.pure_def,
      Option.some.injEq] at h
    obtain ⟨v, hv, vs, hvs, rfl⟩ := h
    rw [printedDict, serialize_printed x hv, serializeDict_printed xs hvs]

end

mutual

theorem survives_iff : (v : Value) → AllPrinted (numbers v) →
    ((∃ w, fromDecimal (printed v) = some w ∧ printed w = printed v) ↔ AllShort (numbers v))
  | .null, _ => iff_of_true ⟨.null, rfl, rfl⟩ (by simp [AllShort, numbers])
  | .bool b, _ => iff_of_true ⟨.bool b, rfl, rfl⟩ (by simp [AllShort, numbers])
  | .str t, _ => iff_of_true ⟨.str t, rfl, rfl⟩ (by simp [AllShort, numbers])
  | .int n, hv => by simpa [printed, fromDecimal, numbers, AllShort] using number_survives_iff (q := n) (.inl rfl)
  | .float x, hv => by
    obtain ⟨q, hx, hq⟩ := hv _ List.mem_cons_self
    simpa [printed, fromDecimal, numbers, AllShort, hx] using number_survives_iff hq
  | .decimal d, hv => by
    obtain ⟨q, rfl, hq⟩ := hv _ List.mem_cons_self
    simpa [printed, fromDecimal, numbers, AllShort] using number_survives_iff hq
  | .list xs, hv => by
    rw [numbers, ← list_survives_iff xs hv, printed, fromDecimal]
    constructor
    · rintro ⟨w, hw, e⟩
      obtain ⟨ys, hys, rfl⟩ := Option.map_eq_some_iff.mp hw
      exact ⟨ys, hys, Value.list.inj e⟩
    · rintro ⟨ys, hys, e⟩
      exact ⟨.list ys, by rw [hys]; rfl, congrArg Value.list e⟩
  | .dict kvs, hv => by
    rw [numbers, ← dict_survives_iff kvs hv, printed, fromDecimal]
    constructor
    · rintro ⟨w, hw, e⟩
      obtain ⟨d, hd, rfl⟩ := Option.map_eq_some_iff.mp hw
      exact ⟨d, hd, Value.dict.inj e⟩
    · rintro ⟨d, hd, e⟩
      exact ⟨.dict d, by rw [hd]; rfl, congrArg Value.dict e⟩

theorem list_survives_iff : (xs : List Value) → AllPrinted (numbersList xs) →
    ((∃ ys, fromDecimalList (printedList xs) = some ys ∧ printedList ys = printedList xs) ↔ AllShort (numbersList xs))
  | [], _ => iff_of_true ⟨[], rfl, rfl⟩ (by simp [AllShort, numbersList])
  | x :: xs, hv => by
    obtain ⟨hx, hxs⟩ := allPrinted_append.mp hv
    rw [numbersList, allShort_append, ← survives_iff x hx, ← list_survives_iff xs hxs]
    simp only [printedList, fromDecimalList, Option.bind_eq_bind, Option.bind_eq_some_iff, Option.pure_def,
      Option.some.injEq]
    constructor
    · rintro ⟨ys, ⟨w, hw, ws, hws, rfl⟩, e⟩
      obtain ⟨e, es⟩ := List.cons.inj e
      exact ⟨⟨w, hw, e⟩, ws, hws, es⟩
    · rintro ⟨⟨w, hw, e⟩, ws, hws, es⟩
      exact ⟨w :: ws, ⟨w, hw, ws, hws, rfl⟩, by rw [printedList, e, es]⟩

theorem dict_survives_iff : (d : Attrs) → AllPrinted (numbersDict d) →
    ((∃ e, fromDecimalDict (printedDict d) = some e ∧ printedDict e = printedDict d) ↔ AllShort (numbersDict d))
  | [], _ => iff_of_true ⟨[], rfl, rfl⟩ (by simp [AllShort, numbersDict])
  | (k, x) :: xs, hv => by
    obtain ⟨hx, hxs⟩ := allPrinted_append.mp hv
    rw [numbersDict, allShort_append, ← survives_iff x hx, ← dict_survives_iff xs hxs]
    simp only [printedDict, fromDecimalDict, Option.bind_eq_bind, Option.bind_eq_some_iff, Option.pure_def,
      Option.some.injEq]
    constructor
    · rintro ⟨d, ⟨w, hw, ws, hws, rfl⟩, e⟩
      obtain ⟨e, es⟩ := List.cons.inj e
      exact ⟨⟨w, hw, (Prod.mk.inj e).2⟩, ws, hws, es⟩
    · rintro ⟨⟨w, hw, e⟩, ws, hws, es⟩
      exact ⟨(k, w) :: ws, ⟨w, hw, ws, hws, rfl⟩, by rw [printedDict, e, es]⟩

end

/-- What the table accepts is read back, with its numbers as they are printed,
exactly if each number has at most 28 digits before the point. -/
theorem numbers_survive_iff (v s : Value) (hv : AllPrinted (numbers v)) (hs : serialize (toDecimal v) = some s) :
    (∃ w, fromDecimal s = some w ∧ printed w = printed v) ↔ AllShort (numbers v) := by
  rw [serialize_printed v hs]
  exact survives_iff v hv

theorem numbers_survive_iff_amounts :
    let v : Value := .dict [("amount_usd", .float (.fin (.ofInt 250 (by decide)))), ("days", .list [.int 30, .null])]
    (∃ w, fromDecimal (printed v) = some w ∧ printed w = printed v) ↔ AllShort (numbers v) := by
  have hamount : storable (Double.ofInt 250 (by decide)).repr = true := by decide +kernel
  have hdays : storableInt 30 = true := by decide +kernel
  refine numbers_survive_iff _ _ (fun x hx => ?_) ?_
  · rcases List.mem_cons.mp hx with rfl | hx
    · exact ⟨_, rfl, .inr ⟨_, rfl⟩⟩
    · exact ⟨_, List.mem_singleton.mp hx, .inl rfl⟩
  · simp only [toDecimal, toDecimalDict, toDecimalList, decimalOfFloat, Ext.map, serialize, serializeDict, serializeList,
      hamount, hdays, if_true]
    rfl

/-- An int of 29 digits is stored, and cannot be read. -/
theorem numbers_survive_fails :
    AllPrinted (numbers (.int (10 ^ 28))) ∧
      ∃ s, serialize (toDecimal (.int (10 ^ 28))) = some s ∧ fromDecimal s = none := by
  have hstored : storableInt (10 ^ 28) = true := by decide +kernel
  have hlong : 10 ^ 28 ≤ ((10 ^ 28 : ℤ) : ℚ).num.natAbs / ((10 ^ 28 : ℤ) : ℚ).den := by decide +kernel
  refine ⟨fun x hx => ⟨_, List.mem_singleton.mp hx, .inl (Rat.den_intCast _)⟩, .decimal (.fin (10 ^ 28 : ℤ)), ?_, ?_⟩
  · rw [toDecimal, serialize, if_pos hstored]
    all_goals simp
  · rw [fromDecimal, numberOfDecimal, if_pos hlong]

end ControlPlane
