import ControlPlane.Registry.Models

/-!
# YAML documents

What `yaml.safe_load` makes of a text (`Document`): any of the objects its
constructors build, not only those that JSON has, in mappings with any keys.
How Python tests one (`truthy`), what `raw or {}` leaves of it (`orEmpty`), and
the keyword arguments `**raw` makes of that (`keywords`), which only a mapping
with strings for keys has (`keywords_isSome`).
-/

namespace ControlPlane

/-- An object in what a YAML text loads as. -/
inductive Document
  | null
  | bool (b : Bool)
  | int (n : ℤ)
  | float (x : PyFloat)
  | str (s : String)
  | bytes (bs : List UInt8)
  /-- A date, or a datetime. -/
  | timestamp (isoformat : String)
  | list (xs : List Document)
  /-- An entry of an `!!omap`, or of `!!pairs`. -/
  | tuple (xs : List Document)
  | set (xs : List Document)
  | dict (items : List (Document × Document))
  /-- A collection it is in, `up` levels above: an alias of an anchor that is
  still open. -/
  | enclosing (up : ℕ)

/-- The exceptions of `yaml.safe_load`. -/
inductive YamlRaised
  | yamlError (text : String)
  /-- Any other: a constructor's ValueError (a date that is none), KeyError,
  IndexError, AttributeError or OverflowError, or a RecursionError. -/
  | other

/-- YAML's loader, and what pydantic makes of a manifest that JSON could not
hold, or that it rejects. -/
class Yaml where
  safeLoad : String → Except YamlRaised Document
  /-- The value pydantic's lax mode takes an object for that JSON has not, in
  the field it is for, where it takes it. -/
  lax : String → Document → Option Value
  /-- The text of the ValidationError. -/
  validationError : List (String × Document) → String

namespace Document

/-! ## Values -/

mutual

/-- The value, of an object that JSON has. -/
def value? : Document → Option Value
  | null => some .null
  | bool b => some (.bool b)
  | int n => some (.int n)
  | float x => some (.float x)
  | str s => some (.str s)
  | list xs => (values? xs).map .list
  | dict items => (attrs? items).map .dict
  | _ => none

def values? : List Document → Option (List Value)
  | [] => some []
  | x :: xs => (value? x).bind fun v => (values? xs).map fun vs => v :: vs

def attrs? : List (Document × Document) → Option Attrs
  | [] => some []
  | (str name, x) :: items => (value? x).bind fun v => (attrs? items).map fun kvs => (name, v) :: kvs
  | _ :: _ => none

end

/-- `bool(raw)`. -/
def truthy : Document → Bool
  | null => false
  | bool b => b
  | int n => n ≠ 0
  | float (.fin d) => d.val ≠ 0
  | str s => s ≠ ""
  | bytes bs => !bs.isEmpty
  | list xs => !xs.isEmpty
  | tuple xs => !xs.isEmpty
  | set xs => !xs.isEmpty
  | dict items => !items.isEmpty
  | _ => true

/-- `raw or {}`. -/
def orEmpty (raw : Document) : Document := if raw.truthy then raw else dict []

/-! ## Keyword arguments -/

def str? : Document → Option String
  | str s => some s
  | _ => none

/-- The keyword arguments `**raw` makes; where it makes none, it is a TypeError. -/
def keywords : Document → Option (List (String × Document))
  | dict items => items.mapM fun item => item.1.str?.map fun name => (name, item.2)
  | _ => none

/-- Nothing (null, false, zero, an empty collection), or a mapping with strings
for keys. -/
def Named : Document → Prop
  | dict items => ∀ item ∈ items, ∃ name, item.1 = str name
  | raw => raw.truthy = false

theorem str?_isSome {raw : Document} : raw.str?.isSome ↔ ∃ name, raw = str name := by
  cases raw <;> simp [str?]

theorem keywords_dict {items : List (Document × Document)} :
    (dict items).keywords.isSome ↔ ∀ item ∈ items, ∃ name, item.1 = str name := by
  simp only [keywords]
  induction items with
  | nil => simp
  | cons item items ih =>
    rw [List.forall_mem_cons, ← ih, ← str?_isSome, List.mapM_cons]
    cases item.1.str? with
    | none => simp
    | some name => cases items.mapM fun item => item.1.str?.map fun name => (name, item.2) <;> simp

/-- What is nothing has no keyword arguments, and the rest has them exactly if
it is a mapping with strings for keys. -/
theorem keywords_isSome {raw : Document} : raw.orEmpty.keywords.isSome ↔ raw.Named := by
  by_cases ht : raw.truthy
  · rw [orEmpty, if_pos ht]
    cases raw with
    | dict items => exact keywords_dict
    | _ => simp_all [keywords, Named]
  · rw [orEmpty, if_neg ht]
    have hnil : (dict []).keywords.isSome := rfl
    refine iff_of_true hnil ?_
    cases raw with
    | dict items =>
      have hempty : items = [] := by simpa [truthy] using ht
      rw [hempty]
      exact List.forall_mem_nil _
    | _ => exact Bool.eq_false_iff.mpr ht

end Document

end ControlPlane
