import Mathlib.Data.List.AList
import ControlPlane.Lib.Program
import ControlPlane.Registry.Models

/-!
# The DynamoDB table

The calls the repository makes on its one table (`DynamoOp`) and what each
answers and writes (`dynamo`), on the table as a finite map from `(pk, sk)`
to the row's other attributes.

* Writes go through boto3's serializer (`serialize`), which stores an int as
  a Decimal and refuses a float and a number DynamoDB cannot hold; a write
  that is refused raises and changes nothing.
* A conditional write that fails its condition answers `false`.
* Reads see a version of the table the caller of `dynamo` chooses, and a
  Query or a Scan evaluates the part of the rows its `page` keeps.

`dynamo_frame`: a call changes at most the row it writes.
-/

namespace ControlPlane

open Effect

structure Key where
  pk : String
  sk : String
  deriving DecidableEq

abbrev Table := AList (fun _ : Key => Attrs)

/-- A row of the table. -/
abbrev Row := Sigma fun _ : Key => Attrs

/-! ## Numbers in and out -/

/-- The ints boto3 writes: of one with more than 38 digits its context traps the
rounding, also where the digits that go are zeros. -/
def storableInt (n : ℤ) : Bool := n.natAbs < 10 ^ 38

/-- The Decimals DynamoDB stores: up to 38 significant digits, from 1E-130 to
below 1E126. A Decimal is its value here; one that `_to_decimal` makes is written
in the digits of a float, which are 17 at most. -/
def storable (q : ℚ) : Bool :=
  let n := q.num.natAbs
  let scaled := n * 10 ^ 168 / q.den
  n = 0 ∨ (q.den ≤ n * 10 ^ 130 ∧ n < q.den * 10 ^ 126 ∧ q.den ∣ n * 10 ^ 168 ∧
    10 ^ ((Nat.toDigits 10 scaled).length - 38) ∣ scaled)

mutual

/-- boto3's serializer: the value as the table holds it. -/
def serialize : Value → Option Value
  | .null => some .null
  | .bool b => some (.bool b)
  | .int n => if storableInt n then some (.decimal (.fin n)) else none
  | .float _ => none
  | .decimal (.fin q) => if storable q then some (.decimal (.fin q)) else none
  | .decimal _ => none
  | .str s => some (.str s)
  | .list xs => (serializeList xs).map .list
  | .dict kvs => (serializeDict kvs).map .dict

def serializeList : List Value → Option (List Value)
  | [] => some []
  | x :: xs => do return (← serialize x) :: (← serializeList xs)

def serializeDict : Attrs → Option Attrs
  | [] => some []
  | (k, x) :: xs => do return (k, ← serialize x) :: (← serializeDict xs)

end

mutual

/-- `_to_decimal`. -/
def toDecimal : Value → Value
  | .float x => .decimal (decimalOfFloat x)
  | .dict kvs => .dict (toDecimalDict kvs)
  | .list xs => .list (toDecimalList xs)
  | v => v

def toDecimalList : List Value → List Value
  | [] => []
  | x :: xs => toDecimal x :: toDecimalList xs

def toDecimalDict : Attrs → Attrs
  | [] => []
  | (k, x) :: xs => (k, toDecimal x) :: toDecimalDict xs

end

/-- `int(value) if value % 1 == 0 else float(value)`: the remainder raises
InvalidOperation when the quotient has more than 28 digits. -/
def numberOfDecimal : PyDecimal → Option Value
  | .fin q =>
    if 10 ^ 28 ≤ q.num.natAbs / q.den then none
    else if q.den = 1 then some (.int q.num)
    else (Binary64.nearest? q).map fun d => .float (.fin d)
  | .inf _ => none
  | .nan => some (.float .nan)

mutual

/-- `_from_decimal`; `none` is its InvalidOperation. -/
def fromDecimal : Value → Option Value
  | .decimal d => numberOfDecimal d
  | .dict kvs => (fromDecimalDict kvs).map .dict
  | .list xs => (fromDecimalList xs).map .list
  | v => some v

def fromDecimalList : List Value → Option (List Value)
  | [] => some []
  | x :: xs => do return (← fromDecimal x) :: (← fromDecimalList xs)

def fromDecimalDict : Attrs → Option Attrs
  | [] => some []
  | (k, x) :: xs => do return (k, ← fromDecimal x) :: (← fromDecimalDict xs)

end

/-- `_decode`. -/
def decode (item : Attrs) : Except Raised Attrs :=
  match fromDecimalDict item with
  | some kw => .ok kw
  | none => .error .invalidOperation

/-! ## Calls -/

inductive DynamoOp
  | getItem (key : Key)
  /-- `ifAbsent`: with the condition `attribute_not_exists(pk)`. -/
  | putItem (key : Key) (attrs : Attrs) (ifAbsent : Bool)
  /-- `SET` of the attributes; `ifPresent`: with the condition `attribute_exists(pk)`. -/
  | updateItem (key : Key) (set : Attrs) (ifPresent : Bool)
  | deleteItem (key : Key)
  /-- `pk = :pk`. -/
  | query (pk : String)
  /-- `gsi1_pk = :tenant_id` on the index, newest first. -/
  | queryIndex (gsi1Pk : String) (limit : ℕ)
  /-- `begins_with(pk, :prefix)`. -/
  | scan (pkPrefix : String)

def DynamoOp.Ans : DynamoOp → Type
  | getItem _ => Option Attrs
  | putItem _ _ _ => Bool
  | updateItem _ _ _ => Bool
  | deleteItem _ => Unit
  | query _ => List Attrs
  | queryIndex _ _ => List Attrs
  | scan _ => List Attrs

def Dynamo : Sig := ⟨DynamoOp, DynamoOp.Ans⟩

/-- The row with the attributes of `set` set. -/
def setAttrs (set row : Attrs) : Attrs := set ++ row.filter fun kv => (set.lookup kv.1).isNone

/-- The row's keys in the index, if it is in the index. -/
def indexKey (row : Attrs) : Option (String × String) := do
  return (← row.lookup "gsi1_pk" >>= asStr, ← row.lookup "gsi1_sk" >>= asStr)

/-- The rows a Query selects. -/
def selectPk (pk : String) (rows : List Row) : List Row :=
  (rows.filter fun r => r.1.pk = pk).insertionSort fun a b => a.1.sk ≤ b.1.sk

/-- The rows an index query selects, newest first. -/
def selectIndex (gsi1Pk : String) (rows : List Row) : List Row :=
  (rows.filter fun r => (indexKey r.2).any fun k => k.1 = gsi1Pk).insertionSort fun a b =>
    ((indexKey b.2).map Prod.snd).getD "" ≤ ((indexKey a.2).map Prod.snd).getD ""

/-- The rows a Scan's filter keeps. -/
def selectPrefix (pkPrefix : String) (rows : List Row) : List Row :=
  rows.filter fun r => pkPrefix.toList.isPrefixOf r.1.pk.toList

/-- The row the call writes, if it is one that writes. -/
def DynamoOp.writes : DynamoOp → Option Key
  | putItem key _ _ => some key
  | updateItem key _ _ => some key
  | deleteItem key => some key
  | _ => none

/-- What a call answers, reading `seen`, and what it leaves of the table. -/
def dynamo (page : List Row → List Row) (seen : Table) : (o : DynamoOp) → Table → Except Raised (o.Ans × Table)
  | .getItem key, t => .ok (seen.lookup key, t)
  | .putItem key attrs ifAbsent, t =>
    match serializeDict attrs with
    | none => .error .notStorable
    | some row => if ifAbsent && (t.lookup key).isSome then .ok (false, t) else .ok (true, t.insert key row)
  | .updateItem key set ifPresent, t =>
    match serializeDict set with
    | none => .error .notStorable
    | some set =>
      if ifPresent && (t.lookup key).isNone then .ok (false, t)
      else .ok (true, t.insert key (setAttrs set ((t.lookup key).getD [])))
  | .deleteItem key, t => .ok ((), t.erase key)
  | .query pk, t => .ok ((page (selectPk pk seen.entries)).map Sigma.snd, t)
  | .queryIndex gsi1Pk limit, t => .ok (((page (selectIndex gsi1Pk seen.entries)).take limit).map Sigma.snd, t)
  | .scan pkPrefix, t => .ok ((selectPrefix pkPrefix (page seen.entries)).map Sigma.snd, t)

/-- Calls that see the whole table as it is. -/
def onTable : Handler Dynamo Raised Unit Table := fun o _ t => dynamo id t o t

/-! ## What a call changes -/

variable {page : List Row → List Row} {seen t t' : Table}

/-- What each writing call leaves of the row it writes. -/
theorem dynamo_put {key : Key} {attrs : Attrs} {ifAbsent ans : Bool}
    (h : dynamo page seen (.putItem key attrs ifAbsent) t = .ok (ans, t')) :
    ∃ row, serializeDict attrs = some row ∧
      ((ans = false ∧ t' = t ∧ ifAbsent = true ∧ (t.lookup key).isSome) ∨
        (ans = true ∧ t' = t.insert key row ∧ (ifAbsent = true → t.lookup key = none))) := by
  simp only [dynamo] at h
  split at h
  · cases h
  · rename_i row hs
    refine ⟨row, hs, ?_⟩
    split at h <;> rename_i hc <;> cases h
    · rw [Bool.and_eq_true] at hc
      exact .inl ⟨rfl, rfl, hc⟩
    · refine .inr ⟨rfl, rfl, fun ha => ?_⟩
      simpa [ha] using hc

theorem dynamo_update {key : Key} {set : Attrs} {ifPresent ans : Bool}
    (h : dynamo page seen (.updateItem key set ifPresent) t = .ok (ans, t')) :
    ∃ row, serializeDict set = some row ∧
      ((ans = false ∧ t' = t ∧ ifPresent = true ∧ t.lookup key = none) ∨
        (ans = true ∧ t' = t.insert key (setAttrs row ((t.lookup key).getD [])) ∧
          (ifPresent = true → (t.lookup key).isSome))) := by
  simp only [dynamo] at h
  split at h
  · cases h
  · rename_i row hs
    refine ⟨row, hs, ?_⟩
    split at h <;> rename_i hc <;> cases h
    · rw [Bool.and_eq_true, Option.isNone_iff_eq_none] at hc
      exact .inl ⟨rfl, rfl, hc⟩
    · refine .inr ⟨rfl, rfl, fun ha => ?_⟩
      simpa [ha, Option.isSome_iff_ne_none] using hc

/-- A call changes at most the row it writes. -/
theorem dynamo_frame {o : DynamoOp} {ans : o.Ans} (h : dynamo page seen o t = .ok (ans, t')) {key : Key}
    (hk : o.writes ≠ some key) : t'.lookup key = t.lookup key := by
  cases o with
  | putItem k attrs ifAbsent =>
    obtain ⟨row, -, ⟨-, rfl, -⟩ | ⟨-, rfl, -⟩⟩ := dynamo_put h
    · rfl
    · exact AList.lookup_insert_ne fun e => hk (congrArg some e.symm)
  | updateItem k set ifPresent =>
    obtain ⟨row, -, ⟨-, rfl, -⟩ | ⟨-, rfl, -⟩⟩ := dynamo_update h
    · rfl
    · exact AList.lookup_insert_ne fun e => hk (congrArg some e.symm)
  | deleteItem k =>
    cases h
    exact AList.lookup_erase_ne fun e => hk (congrArg some e.symm)
  | getItem k => cases h; rfl
  | query pk => cases h; rfl
  | queryIndex pk limit => cases h; rfl
  | scan pre => cases h; rfl

/-- A call that writes no row leaves the table as it is. -/
theorem dynamo_read {o : DynamoOp} {ans : o.Ans} (ho : o.writes = none) (h : dynamo page seen o t = .ok (ans, t')) :
    t' = t := by
  cases o with
  | putItem key attrs ifAbsent => cases ho
  | updateItem key set ifPresent => cases ho
  | deleteItem key => cases ho
  | _ => cases h; rfl

/-- A map over the values of a dict, which may fail, keeps its items in place. -/
theorem lookup_mapValues (f : Value → Option Value) (g : Attrs → Option Attrs) (hnil : g [] = some [])
    (hcons : ∀ k v rest, g ((k, v) :: rest) = do return (k, ← f v) :: (← g rest)) {d d' : Attrs}
    (h : g d = some d') (name : String) :
    d'.lookup name = d.lookup name >>= f ∧ (d'.lookup name).isSome = (d.lookup name).isSome := by
  induction d generalizing d' with
  | nil =>
    rw [hnil] at h
    cases h
    exact ⟨rfl, rfl⟩
  | cons kv rest ih =>
    obtain ⟨k, v⟩ := kv
    simp only [hcons, Option.bind_eq_bind, Option.bind_eq_some_iff, Option.pure_def, Option.some.injEq] at h
    obtain ⟨v', hv, rest', hr, rfl⟩ := h
    simp only [List.lookup_cons]
    split
    · exact ⟨hv.symm, rfl⟩
    · exact ih hr

/-- Such a map succeeds exactly if `f` does on every value. -/
theorem mapValues_isSome_iff (f : Value → Option Value) (g : Attrs → Option Attrs) (hnil : g [] = some [])
    (hcons : ∀ k v rest, g ((k, v) :: rest) = do return (k, ← f v) :: (← g rest)) {d : Attrs} :
    (g d).isSome ↔ ∀ kv ∈ d, (f kv.2).isSome := by
  induction d with
  | nil => simp [hnil]
  | cons kv rest ih =>
    obtain ⟨k, v⟩ := kv
    rw [List.forall_mem_cons, ← ih, hcons]
    cases f v <;> cases g rest <;> simp

theorem serializeDict_lookup {attrs row : Attrs} (h : serializeDict attrs = some row) (name : String) :
    row.lookup name = attrs.lookup name >>= serialize :=
  (lookup_mapValues serialize serializeDict rfl (fun _ _ _ => rfl) h name).1

theorem serializeDict_isSome {attrs row : Attrs} (h : serializeDict attrs = some row) (name : String) :
    (row.lookup name).isSome = (attrs.lookup name).isSome :=
  (lookup_mapValues serialize serializeDict rfl (fun _ _ _ => rfl) h name).2

/-- A row takes each value of its dict or none. -/
theorem serializeDict_isSome_iff {attrs : Attrs} :
    (serializeDict attrs).isSome ↔ ∀ kv ∈ attrs, (serialize kv.2).isSome :=
  mapValues_isSome_iff serialize serializeDict rfl fun _ _ _ => rfl

/-- Leaving out items by their keys leaves the others in place. -/
theorem lookup_filter_key {α : Type} (keep : String → Bool) {name : String} (hn : keep name = true)
    (d : List (String × α)) :
    (d.filter fun kv => keep kv.1).lookup name = d.lookup name := by
  induction d with
  | nil => rfl
  | cons kv rest ih =>
    obtain ⟨k, v⟩ := kv
    by_cases e : name = k
    · subst e
      simp [hn]
    · have hb : (name == k) = false := by simpa using e
      rw [List.filter_cons]
      split <;> simp only [List.lookup_cons, hb, ih]

theorem setAttrs_lookup (set row : Attrs) (name : String) :
    (setAttrs set row).lookup name = (set.lookup name).or (row.lookup name) := by
  rw [setAttrs, List.lookup_append]
  cases hs : set.lookup name with
  | some v => rfl
  | none => exact lookup_filter_key (fun k => (set.lookup k).isNone) (by rw [hs]; rfl) row

end ControlPlane
