import Mathlib.Order.Compare
import ControlPlane.Lib.Binary64

/-!
# Python values

The values the control plane handles: JSON-like data (`Value`), whose numbers
are `int`, `float` and `Decimal`; how Python compares numbers (`Ext.cmp`: by
value, whatever their types); the exceptions that end a call (`Raised`); and
`datetime.fromisoformat` on the stamps `datetime.isoformat` writes in UTC.
-/

namespace ControlPlane

open Binary64 (Double)

/-- A number that may also be infinite or NaN. -/
inductive Ext (α : Type)
  | fin (a : α)
  | inf (neg : Bool)
  | nan
  deriving DecidableEq

namespace Ext

variable {α β : Type}

def map (f : α → β) : Ext α → Ext β
  | fin a => fin (f a)
  | inf neg => inf neg
  | nan => nan

/-- How two numbers compare; NaN compares with nothing. -/
def cmp : Ext ℚ → Ext ℚ → Option Ordering
  | nan, _ => none
  | _, nan => none
  | fin a, fin b => some (compare a b)
  | fin _, inf neg => some (if neg then .gt else .lt)
  | inf neg, fin _ => some (if neg then .lt else .gt)
  | inf m, inf n => some (if m = n then .eq else if m then .lt else .gt)

end Ext

abbrev PyFloat := Ext Double
abbrev PyDecimal := Ext ℚ

/-- The exact value of a float. -/
def floatValue (x : PyFloat) : Ext ℚ := x.map Double.val

/-- `float(n)`; `none` is its OverflowError. -/
def floatOfInt (n : ℤ) : Option PyFloat := (Binary64.nearest? n).map .fin

/-- `Decimal(str(x))`. -/
def decimalOfFloat (x : PyFloat) : PyDecimal := x.map Double.repr

/-- A Python value. -/
inductive Value
  | null
  | bool (b : Bool)
  | int (n : ℤ)
  | float (x : PyFloat)
  | decimal (d : PyDecimal)
  | str (s : String)
  | list (xs : List Value)
  | dict (kvs : List (String × Value))

/-- The items of a dict. -/
abbrev Attrs := List (String × Value)

/-- `x is None`. -/
def Value.isNull : Value → Bool
  | .null => true
  | _ => false

/-- The value of an `int | float` that is not a `bool`. -/
def Value.number? : Value → Option (Ext ℚ)
  | .int n => some (.fin n)
  | .float x => some (floatValue x)
  | _ => none

/-- The value of an item, or `None` (`d.get(name)`). -/
def getItem (d : Attrs) (name : String) : Value := (d.lookup name).getD .null

/-- `x == s`, for a string. -/
def Value.eqStr (s : String) : Value → Bool
  | .str t => t = s
  | _ => false

theorem Value.eqStr_iff {s : String} {v : Value} : v.eqStr s = true ↔ v = .str s := by
  cases v <;> simp [Value.eqStr]

mutual

/-- JSON has it: no number is NaN, infinite or a Decimal. -/
def isJson : Value → Bool
  | .float (.fin _) => true
  | .float _ => false
  | .decimal _ => false
  | .list xs => isJsonList xs
  | .dict kvs => isJsonDict kvs
  | _ => true

def isJsonList : List Value → Bool
  | [] => true
  | x :: xs => isJson x && isJsonList xs

def isJsonDict : Attrs → Bool
  | [] => true
  | (_, x) :: xs => isJson x && isJsonDict xs

end

/-- The exceptions that end a call. -/
inductive Raised
  /-- Temporal's `ApplicationError`. -/
  | applicationError (message : String) (type : Option String) (nonRetryable : Bool)
  | valueError (message : String)
  /-- pydantic's `ValidationError`, with the required fields that are missing. -/
  | validationError (missing : List String)
  /-- boto3's serializer was given a float, or a number DynamoDB cannot hold. -/
  | notStorable
  /-- The `decimal` module's, for a remainder whose quotient is too long. -/
  | invalidOperation
  | keyError (key : String)
  | typeError
  /-- A request that failed. -/
  | requestError
  /-- boto3's, for a request that AWS answers with an error. -/
  | clientError
  /-- `os._exit`: nothing catches it, the process is gone. -/
  | exit (code : ℕ)
  deriving DecidableEq

/-- The hexadecimal digits of a character below 256, for an escape. -/
def hexEscape (c : Char) : List Char :=
  ['\\', 'x', Nat.digitChar (c.toNat / 16), Nat.digitChar (c.toNat % 16)]

/-- `repr(s)`: in single quotes, or in double quotes where that saves
escaping, with backslashes and characters that are not printable escaped. Of
those from 256 on all are taken to be printable. -/
def pyRepr (s : String) : String :=
  let quote := if '\'' ∈ s.toList ∧ '"' ∉ s.toList then '"' else '\''
  let escape : Char → List Char := fun c =>
    if c = quote ∨ c = '\\' then ['\\', c]
    else if c = '\n' then ['\\', 'n'] else if c = '\r' then ['\\', 'r'] else if c = '\t' then ['\\', 't']
    else if c.toNat < 32 ∨ 127 ≤ c.toNat ∧ c.toNat < 161 ∨ c.toNat = 173 then hexEscape c else [c]
  String.ofList (quote :: s.toList.flatMap escape ++ [quote])

/-- `str(n)`; `none` is its ValueError, of an int with more than 4300 digits. -/
def intStr (n : ℤ) : Option String := if n.natAbs < 10 ^ 4300 then some (toString n) else none

example : intStr (16 ^ 4000) = none := by decide +kernel

/-- A positive number of at most 17 digits, as `repr` writes a float: with an
exponent below 1e-4 and from 1e16 on. -/
def decimalStr (q : ℚ) : String :=
  let e := Int.log 10 q
  let digits := ((toString (q * 10 ^ (16 - e)).num).toList.reverse.dropWhile (· = '0')).reverse
  let places (n : ℕ) : List Char := digits.take n ++ List.replicate (n - digits.length) '0'
  if 0 ≤ e ∧ e < 16 then
    let n := e.toNat + 1
    String.ofList (places n ++ '.' :: if digits.length ≤ n then ['0'] else digits.drop n)
  else if -4 ≤ e ∧ e < 0 then String.ofList ('0' :: '.' :: List.replicate (-e - 1).toNat '0' ++ digits)
  else
    let point := if digits.length ≤ 1 then [] else '.' :: digits.drop 1
    let exponent := toString e.natAbs
    String.ofList (digits.take 1 ++ point ++ ['e', if e < 0 then '-' else '+']) ++
      (if exponent.length < 2 then "0" else "") ++ exponent

/-- `str(x)` of a float. -/
def floatStr : PyFloat → String
  | .fin d => if d.val = 0 then "0.0" else (if d.val < 0 then "-" else "") ++ decimalStr |d.repr|
  | .inf neg => if neg then "-inf" else "inf"
  | .nan => "nan"

mutual

/-- `repr(x)`; a Decimal, which JSON has not, by the digits of its value. -/
def reprValue : Value → String
  | .null => "None"
  | .bool b => if b then "True" else "False"
  | .int n => toString n
  | .float x => floatStr x
  | .decimal (.fin q) => "Decimal('" ++ (if q.den = 1 then toString q.num else decimalStr q) ++ "')"
  | .decimal (.inf neg) => if neg then "Decimal('-Infinity')" else "Decimal('Infinity')"
  | .decimal .nan => "Decimal('NaN')"
  | .str s => pyRepr s
  | .list xs => "[" ++ ", ".intercalate (reprList xs) ++ "]"
  | .dict kvs => "\x7b" ++ ", ".intercalate (reprItems kvs) ++ "\x7d"

def reprList : List Value → List String
  | [] => []
  | x :: xs => reprValue x :: reprList xs

def reprItems : Attrs → List String
  | [] => []
  | (k, x) :: xs => (pyRepr k ++ ": " ++ reprValue x) :: reprItems xs

end

/-- `str(x)`. -/
def pyStr : Value → String
  | .str s => s
  | v => reprValue v

/-! ## Instants -/

/-- The days from 1970-01-01 to a date of the proleptic Gregorian calendar. -/
def daysFromCivil (year : ℤ) (month day : ℕ) : ℤ :=
  let y := if month ≤ 2 then year - 1 else year
  let era := y / 400
  let yoe := y - era * 400
  let doy : ℤ := (153 * ((month : ℤ) + (if month > 2 then -3 else 9)) + 2) / 5 + day - 1
  era * 146097 + (yoe * 365 + yoe / 4 - yoe / 100 + doy) - 719468

/-- The days of a month. -/
def daysInMonth (year month : ℕ) : ℕ :=
  if month = 2 then if year % 4 = 0 ∧ (year % 100 ≠ 0 ∨ year % 400 = 0) then 29 else 28
  else if month ∈ [4, 6, 9, 11] then 30 else 31

/-- The number written in the next `n` digits, and what follows them. -/
def takeDigits : ℕ → ℕ → List Char → Option (ℕ × List Char)
  | 0, acc, cs => some (acc, cs)
  | n + 1, acc, c :: cs => if c.isDigit then takeDigits n (10 * acc + (c.toNat - '0'.toNat)) cs else none
  | _ + 1, _, [] => none

/-- What follows the character `c`. -/
def takeChar (c : Char) : List Char → Option (List Char)
  | d :: cs => if d = c then some cs else none
  | [] => none

/-- `datetime.fromisoformat` of `YYYY-MM-DDTHH:MM:SS[.ffffff]+00:00`, in
microseconds since 1970; `none` is its ValueError. -/
def fromisoformat (s : String) : Option ℤ := do
  let (year, cs) ← takeDigits 4 0 s.toList
  let (month, cs) ← takeDigits 2 0 (← takeChar '-' cs)
  let (day, cs) ← takeDigits 2 0 (← takeChar '-' cs)
  let (hour, cs) ← takeDigits 2 0 (← takeChar 'T' cs)
  let (minute, cs) ← takeDigits 2 0 (← takeChar ':' cs)
  let (second, cs) ← takeDigits 2 0 (← takeChar ':' cs)
  let (micro, cs) ← match cs with
    | '.' :: cs => takeDigits 6 0 cs
    | cs => some (0, cs)
  if cs = "+00:00".toList ∧ 1 ≤ year ∧ 1 ≤ month ∧ month ≤ 12 ∧ 1 ≤ day ∧ day ≤ daysInMonth year month ∧
      hour < 24 ∧ minute < 60 ∧ second < 60 then
    some ((((daysFromCivil year month day * 24 + hour) * 60 + minute) * 60 + second) * 1000000 + micro)
  else none

example : fromisoformat "2026-09-02T14:02:00.000250+00:00" = some 1788357720000250 := by decide +kernel

theorem takeDigits_lt {n acc m : ℕ} {cs rest : List Char} (h : takeDigits n acc cs = some (m, rest)) :
    m < (acc + 1) * 10 ^ n := by
  induction n generalizing acc cs with
  | zero =>
    cases h
    omega
  | succ n ih =>
    cases cs with
    | nil => cases h
    | cons c cs =>
      rw [takeDigits] at h
      split at h
      · rename_i hdigit
        have hlt := ih h
        have hnine : c.toNat - '0'.toNat ≤ 9 := by
          have hle := (Char.isDigit_iff_toNat.mp hdigit).2
          have hzero : '9'.toNat = '0'.toNat + 9 := rfl
          omega
        have hle : 10 * acc + (c.toNat - '0'.toNat) + 1 ≤ (acc + 1) * 10 := by omega
        calc m < (10 * acc + (c.toNat - '0'.toNat) + 1) * 10 ^ n := hlt
          _ ≤ (acc + 1) * 10 * 10 ^ n := Nat.mul_le_mul_right _ hle
          _ = (acc + 1) * 10 ^ (n + 1) := by ring
      · cases h

theorem daysInMonth_le (year month : ℕ) : daysInMonth year month ≤ 31 := by
  unfold daysInMonth
  split_ifs <;> omega

/-- The days to a date of four digits' year. -/
theorem daysFromCivil_bound {year month day : ℕ} (hy : year < 10000) (hm : month ≤ 12) (hd : day ≤ 31) :
    -10 ^ 7 < daysFromCivil year month day ∧ daysFromCivil year month day < 10 ^ 7 := by
  unfold daysFromCivil
  simp only
  split_ifs <;> omega

/-- An instant is within some three hundred thousand years of 1970. -/
theorem fromisoformat_bound {s : String} {t : ℤ} (h : fromisoformat s = some t) : -10 ^ 18 < t ∧ t < 10 ^ 18 := by
  unfold fromisoformat at h
  obtain ⟨⟨year, cs⟩, hyear, h⟩ := Option.bind_eq_some_iff.mp h
  obtain ⟨cs, -, h⟩ := Option.bind_eq_some_iff.mp h
  obtain ⟨⟨month, cs⟩, -, h⟩ := Option.bind_eq_some_iff.mp h
  obtain ⟨cs, -, h⟩ := Option.bind_eq_some_iff.mp h
  obtain ⟨⟨day, cs⟩, -, h⟩ := Option.bind_eq_some_iff.mp h
  obtain ⟨cs, -, h⟩ := Option.bind_eq_some_iff.mp h
  obtain ⟨⟨hour, cs⟩, -, h⟩ := Option.bind_eq_some_iff.mp h
  obtain ⟨cs, -, h⟩ := Option.bind_eq_some_iff.mp h
  obtain ⟨⟨minute, cs⟩, -, h⟩ := Option.bind_eq_some_iff.mp h
  obtain ⟨cs, -, h⟩ := Option.bind_eq_some_iff.mp h
  obtain ⟨⟨second, cs⟩, -, h⟩ := Option.bind_eq_some_iff.mp h
  have hyear : year < 10 ^ 4 := by
    have := takeDigits_lt hyear
    omega
  have hend : ∃ (micro : ℕ) (rest : List Char), micro < 10 ^ 6 ∧
      (if rest = "+00:00".toList ∧ 1 ≤ year ∧ 1 ≤ month ∧ month ≤ 12 ∧ 1 ≤ day ∧ day ≤ daysInMonth year month ∧
        hour < 24 ∧ minute < 60 ∧ second < 60 then
        some ((((daysFromCivil year month day * 24 + hour) * 60 + minute) * 60 + second) * 1000000 + micro)
      else none) = some t := by
    simp only at h
    split at h
    · obtain ⟨⟨micro, rest⟩, hmicro, h⟩ := Option.bind_eq_some_iff.mp h
      have hlt := takeDigits_lt hmicro
      exact ⟨micro, rest, by omega, h⟩
    · exact ⟨0, _, by omega, h⟩
  obtain ⟨micro, rest, hmicro, h⟩ := hend
  split at h
  · rename_i hc
    obtain ⟨-, -, -, hmonth, -, hday, hhour, hminute, hsecond⟩ := hc
    have hle := daysInMonth_le year month
    have hdays := daysFromCivil_bound hyear hmonth (by omega : day ≤ 31)
    cases h
    omega
  · cases h

end ControlPlane
