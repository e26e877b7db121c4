import ControlPlane.Lib.JsonWrite
import ControlPlane.Python

/-!
# JSON of Python values

`json.dumps` and `json.loads` of the values the control plane sends as JSON.
`jsonLoads_dumps`: what is written of a value that JSON has a form for
(`Jsonable`) is ASCII, and is read as that value, a float by its value: the
two zeros are one, which is written 0.0.
-/

namespace ControlPlane

open Binary64 (nearest?)
open Json (Numeral points)

/-! ## Writing -/

def floatText : PyFloat → Json.Text
  | .fin d => (Numeral.ofDouble d).lexeme
  | .inf neg => points (if neg then "-Infinity" else "Infinity")
  | .nan => points "NaN"

mutual

/-- The JSON of a value; `none` for a Decimal, of which it has none, and for an
integer that has too many digits to be written. -/
def toJson : Value → Option Json.Value
  | .null => some .null
  | .bool b => some (.bool b)
  | .int n => if (Numeral.ofInt n).int.length ≤ Json.maxDigits then some (.number (Numeral.ofInt n).lexeme) else none
  | .float x => some (.number (floatText x))
  | .decimal _ => none
  | .str s => some (.str (points s))
  | .list xs => (toJsonList xs).map .array
  | .dict kvs => (toJsonDict kvs).map .object

def toJsonList : List Value → Option (List Json.Value)
  | [] => some []
  | x :: xs => do return (← toJson x) :: (← toJsonList xs)

def toJsonDict : Attrs → Option (List (Json.Text × Json.Value))
  | [] => some []
  | (k, x) :: xs => do return (points k, ← toJson x) :: (← toJsonDict xs)

end

/-- `json.dumps`; `none` where it raises. -/
def jsonDumps (v : Value) : Option Json.Text := (toJson v).map Json.dumps

/-! ## Reading -/

/-- `float(s)` of a numeral with this value. -/
def floatOf (q : ℚ) : PyFloat := (nearest? q).elim (.inf (q < 0)) .fin

/-- The number of a text: an integer where it has neither fraction nor exponent. -/
def numberOf (t : Json.Text) : Option Value :=
  if t = points "NaN" then some (.float .nan)
  else if t = points "Infinity" then some (.float (.inf false))
  else if t = points "-Infinity" then some (.float (.inf true))
  else (Json.numeralOf t).map fun n => if n.frac = [] ∧ n.exp = none then .int n.toInt else .float (floatOf n.value)

/-- A text as a string; `none` if it has half a surrogate pair. -/
def stringOf (t : Json.Text) : Option String :=
  if ∀ c ∈ t, Utf8.Scalar c then some (String.ofList (t.map Char.ofNat)) else none

/-- `d[k] = v`, for a dict by its items. -/
def putItem (d : Attrs) (k : String) (v : Value) : Attrs :=
  if (d.lookup k).isSome then d.map fun kv => if kv.1 = k then (k, v) else kv else d ++ [(k, v)]

mutual

/-- The value that JSON stands for; of members of one key the last counts. -/
def ofJson : Json.Value → Option Value
  | .null => some .null
  | .bool b => some (.bool b)
  | .number t => numberOf t
  | .str t => (stringOf t).map .str
  | .array vs => (ofJsonList vs).map .list
  | .object members => (ofJsonDict [] members).map .dict

def ofJsonList : List Json.Value → Option (List Value)
  | [] => some []
  | x :: xs => do return (← ofJson x) :: (← ofJsonList xs)

def ofJsonDict (d : Attrs) : List (Json.Text × Json.Value) → Option Attrs
  | [] => some d
  | (k, x) :: xs => do ofJsonDict (putItem d (← stringOf k) (← ofJson x)) xs

end

/-- `json.loads`; `none` where it raises, or a string has half a surrogate pair. -/
def jsonLoads (text : Json.Text) : Option Value := (Json.loads text).toOption.bind ofJson

/-! ## The round trip -/

/-- A value that JSON has a form for. -/
inductive Jsonable : Value → Prop
  | null : Jsonable .null
  | bool (b : Bool) : Jsonable (.bool b)
  | int {n : ℤ} (hn : (Numeral.ofInt n).int.length ≤ Json.maxDigits) : Jsonable (.int n)
  | float (x : PyFloat) : Jsonable (.float x)
  | str (s : String) : Jsonable (.str s)
  | list {xs : List Value} (h : ∀ x ∈ xs, Jsonable x) : Jsonable (.list xs)
  | dict {kvs : Attrs} (hk : (kvs.map Prod.fst).Nodup) (h : ∀ kv ∈ kvs, Jsonable kv.2) : Jsonable (.dict kvs)

/-- The value has a JSON that is writable and stands for it. -/
def Stands (v : Value) : Prop := ∃ j, toJson v = some j ∧ Json.Writable j ∧ ofJson j = some v

theorem scalar_points (s : String) : ∀ c ∈ points s, Utf8.Scalar c := by
  refine List.forall_mem_map.mpr fun c _ => ?_
  rcases c.valid with h | h
  · exact .inl h
  · exact .inr ⟨Nat.succ_le_of_lt h.1, h.2⟩

theorem stringOf_points (s : String) : stringOf (points s) = some s := by
  rw [stringOf, if_pos (scalar_points s), points, List.map_map]
  have hid : s.toList.map (Char.ofNat ∘ Char.toNat) = s.toList :=
    (List.map_congr_left fun c _ => Char.ofNat_toNat c).trans (List.map_id _)
  rw [hid, String.ofList_toList]

theorem numberOf_lexeme {n : Numeral} (hn : n.Valid) :
    numberOf n.lexeme = some (if n.frac = [] ∧ n.exp = none then .int n.toInt else .float (floatOf n.value)) := by
  have hne : ∀ w ∈ ["NaN", "Infinity", "-Infinity"].map points, n.lexeme ≠ w := by
    intro w hw h
    obtain ⟨d, t, hd, hl | hl⟩ := Json.lexeme_head hn
    · simp only [List.map_cons, List.map_nil, List.mem_cons, List.not_mem_nil, or_false] at hw
      rw [hl] at h
      rcases hw with rfl | rfl | rfl
      · have hc : 0x30 + d = 0x4E := (List.cons.inj h).1
        omega
      · have hc : 0x30 + d = 0x49 := (List.cons.inj h).1
        omega
      · have hc : 0x30 + d = 0x2D := (List.cons.inj h).1
        omega
    · simp only [List.map_cons, List.map_nil, List.mem_cons, List.not_mem_nil, or_false] at hw
      rw [hl] at h
      rcases hw with rfl | rfl | rfl
      · have hc : 0x2D = 0x4E := (List.cons.inj h).1
        omega
      · have hc : 0x2D = 0x49 := (List.cons.inj h).1
        omega
      · have hc : 0x30 + d = 0x49 := (List.cons.inj (List.cons.inj h).2).1
        omega
  rw [numberOf, if_neg (hne _ (by decide)), if_neg (hne _ (by decide)), if_neg (hne _ (by decide)),
    Json.numeralOf_lexeme hn]
  rfl

theorem stands_int {n : ℤ} (hn : (Numeral.ofInt n).int.length ≤ Json.maxDigits) : Stands (.int n) := by
  have hv := Json.ofInt_valid n
  refine ⟨.number (Numeral.ofInt n).lexeme, by rw [toJson, if_pos hn], .number (.numeral hv fun _ _ => hn), ?_⟩
  rw [ofJson, numberOf_lexeme hv, if_pos ⟨rfl, rfl⟩, Json.toInt_ofInt]

theorem floatOf_nearest {q : ℚ} {d : Binary64.Double} (h : nearest? q = some d) : floatOf q = .fin d := by
  rw [floatOf, h, Option.elim_some]

theorem numberOf_floatText (x : PyFloat) : numberOf (floatText x) = some (.float x) := by
  cases x with
  | fin d =>
    rw [floatText, numberOf_lexeme (Json.ofDouble_valid d), if_neg (Json.ofDouble_float d),
      floatOf_nearest (Json.nearest_ofDouble d)]
  | inf neg =>
    cases neg with
    | true => rfl
    | false => rfl
  | nan => rfl

theorem stands_float (x : PyFloat) : Stands (.float x) := by
  refine ⟨.number (floatText x), rfl, ?_, numberOf_floatText x⟩
  cases x with
  | fin d => exact .number (.numeral (Json.ofDouble_valid d) fun hf he => absurd ⟨hf, he⟩ (Json.ofDouble_float d))
  | inf neg =>
    cases neg with
    | true => exact .number (.word (by decide))
    | false => exact .number (.word (by decide))
  | nan => exact .number (.word (by decide))

theorem ofJsonDict_stands {kvs : Attrs} (d : Attrs) (hk : ((d ++ kvs).map Prod.fst).Nodup) (h : ∀ kv ∈ kvs, Stands kv.2) :
    ∃ members, toJsonDict kvs = some members ∧ (∀ m ∈ members, ∀ c ∈ m.1, Utf8.Scalar c) ∧
      (∀ m ∈ members, Json.Writable m.2) ∧ ofJsonDict d members = some (d ++ kvs) := by
  induction kvs generalizing d with
  | nil => exact ⟨[], rfl, List.forall_mem_nil _, List.forall_mem_nil _, by rw [ofJsonDict, List.append_nil]⟩
  | cons kv kvs ih =>
    obtain ⟨k, v⟩ := kv
    obtain ⟨j, hj, hw, ho⟩ := h (k, v) List.mem_cons_self
    have hput : putItem d k v = d ++ [(k, v)] := by
      have hnone : d.lookup k = none := by
        refine List.lookup_eq_none_iff.mpr fun kv hkv => ?_
        rw [List.map_append, List.nodup_append] at hk
        have hne : k ≠ kv.1 := (hk.2.2 kv.1 (List.mem_map_of_mem hkv) k List.mem_cons_self).symm
        simpa using hne
      rw [putItem, hnone]
      rfl
    have hk' : ((d ++ [(k, v)] ++ kvs).map Prod.fst).Nodup := by
      rwa [List.append_assoc]
    obtain ⟨members, hm, hs, hws, hos⟩ := ih (d ++ [(k, v)]) hk' fun x hx => h x (List.mem_cons_of_mem _ hx)
    refine ⟨(points k, j) :: members, ?_, List.forall_mem_cons.mpr ⟨scalar_points k, hs⟩,
      List.forall_mem_cons.mpr ⟨hw, hws⟩, ?_⟩
    · rw [toJsonDict, hj, hm]
      rfl
    · rw [ofJsonDict, stringOf_points, ho]
      show ofJsonDict (putItem d k v) members = _
      rw [hput, hos, List.append_assoc]
      rfl

theorem ofJsonList_stands {xs : List Value} (h : ∀ x ∈ xs, Stands x) :
    ∃ vs, toJsonList xs = some vs ∧ (∀ v ∈ vs, Json.Writable v) ∧ ofJsonList vs = some xs := by
  induction xs with
  | nil => exact ⟨[], rfl, List.forall_mem_nil _, rfl⟩
  | cons x xs ih =>
    obtain ⟨j, hj, hw, ho⟩ := h x List.mem_cons_self
    obtain ⟨vs, hvs, hws, hos⟩ := ih fun y hy => h y (List.mem_cons_of_mem x hy)
    refine ⟨j :: vs, ?_, List.forall_mem_cons.mpr ⟨hw, hws⟩, ?_⟩
    · rw [toJsonList, hj, hvs]
      rfl
    · rw [ofJsonList, ho, hos]
      rfl

theorem stands {v : Value} (hv : Jsonable v) : Stands v := by
  induction hv with
  | null => exact ⟨.null, rfl, .null, rfl⟩
  | bool b => exact ⟨.bool b, rfl, .bool b, rfl⟩
  | int hn => exact stands_int hn
  | float x => exact stands_float x
  | str s => exact ⟨.str (points s), rfl, .str (scalar_points s), by rw [ofJson, stringOf_points]; rfl⟩
  | list _ ih =>
    obtain ⟨vs, hvs, hw, ho⟩ := ofJsonList_stands ih
    exact ⟨.array vs, by rw [toJson, hvs]; rfl, .array hw, by rw [ofJson, ho]; rfl⟩
  | dict hk _ ih =>
    obtain ⟨members, hm, hs, hw, ho⟩ := ofJsonDict_stands [] hk ih
    exact ⟨.object members, by rw [toJson, hm]; rfl, .object hs hw, by rw [ofJson, ho]; rfl⟩

/-- The round trip. -/
theorem jsonLoads_dumps {v : Value} (hv : Jsonable v) :
    ∃ text, jsonDumps v = some text ∧ Json.Printable text ∧ jsonLoads text = some v := by
  obtain ⟨j, hj, hw, ho⟩ := stands hv
  refine ⟨Json.dumps j, by rw [jsonDumps, hj]; rfl, Json.printable_dumps hw, ?_⟩
  rw [jsonLoads, Json.loads_dumps hw]
  exact ho

end ControlPlane
