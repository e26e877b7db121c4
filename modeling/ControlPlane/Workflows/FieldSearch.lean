import Mathlib.Data.List.Sort
import Mathlib.Logic.Relation
import ControlPlane.Workflows.Gates

/-!
# The search of a tool's input

`resolve_field` looks for a bare name in a dict, and then in its nested dicts
by sorted key, and stops in each at the name even where it is null.

* `resolveField_finds_iff`: what it returns is an occurrence, and it finds one
  where there is one, exactly unless every occurrence is behind a null.
* `resolveField_misses`: a null beside the nested amount hides it from the gate.
* `resolveField_reorders`: the search, and so the gate, does not depend on the
  order of keys in any of the dicts (`Reorders`).
-/

namespace ControlPlane

/-! ## Where a field occurs -/

/-- A dict that is reached from another through dict values, leaving behind
only dicts that meet `pass`. -/
inductive Reaches (pass : Attrs → Prop) : Attrs → Attrs → Prop
  | here (d : Attrs) : Reaches pass d d
  | down {d nested e : Attrs} {key : String} (hd : pass d) (hk : (key, .dict nested) ∈ d) (h : Reaches pass nested e) :
    Reaches pass d e

/-- The dict does not map the field to None. -/
def NotNull (field : String) (d : Attrs) : Prop := ∀ v, d.lookup field = some v → v.isNull = false

/-- A dict so reached maps the field to the value, which is not None. -/
def Occurs (pass : Attrs → Prop) (field : String) (d : Attrs) (v : Value) : Prop :=
  ∃ e, Reaches pass d e ∧ e.lookup field = some v ∧ v.isNull = false

variable {pass : Attrs → Prop} {field key : String} {d nested e : Attrs} {v : Value}

theorem Reaches.mono {pass' : Attrs → Prop} (h : Reaches pass d e) (hp : ∀ d, pass d → pass' d) : Reaches pass' d e := by
  induction h with
  | here d => exact .here d
  | down hd hk h ih => exact .down (hp _ hd) hk ih

/-! ## What the search finds -/

/-- The search of a dict, for a bare name. -/
def searched (field : String) (d : Attrs) : Value := pickField field d (nestedHits field d)

theorem resolveField_bare (h : '.' ∉ field.toList) (d : Attrs) : resolveField d field = searched field d := by
  rw [resolveField, if_neg h, searched]

theorem nestedHits_eq (field : String) (d : Attrs) :
    nestedHits field d = d.filterMap fun kv => (nestedHit field kv.2).map fun hit => (kv.1, hit) := by
  induction d with
  | nil => rfl
  | cons kv d ih =>
    obtain ⟨key, v⟩ := kv
    rw [nestedHits, List.filterMap_cons]
    cases nestedHit field v <;> simp [ih]

theorem nestedHit_eq_some {v hit : Value} :
    nestedHit field v = some hit ↔ ∃ nested, v = .dict nested ∧ hit = searched field nested := by
  cases v with
  | dict nested => simp [nestedHit, searched, eq_comm]
  | _ => simp [nestedHit]

theorem mem_nestedHits {hit : Value} :
    (key, hit) ∈ nestedHits field d ↔ ∃ nested, (key, .dict nested) ∈ d ∧ hit = searched field nested := by
  rw [nestedHits_eq, List.mem_filterMap]
  constructor
  · rintro ⟨⟨k, v⟩, hkv, h⟩
    obtain ⟨hit', hhit, e⟩ := Option.map_eq_some_iff.mp h
    cases e
    obtain ⟨nested, rfl, rfl⟩ := nestedHit_eq_some.mp hhit
    exact ⟨nested, hkv, rfl⟩
  · rintro ⟨nested, hk, rfl⟩
    exact ⟨(key, .dict nested), hk, rfl⟩

/-- What a dict's search gives that is not None: its own item's value, or what
the search of a nested dict gives, where it has no item of its own. -/
theorem searched_cases (h : (searched field d).isNull = false) :
    d.lookup field = some (searched field d) ∨
      d.lookup field = none ∧ ∃ key nested, (key, .dict nested) ∈ d ∧ searched field d = searched field nested := by
  unfold searched at h ⊢
  rw [pickField] at h ⊢
  cases hl : d.lookup field with
  | some v => exact .inl rfl
  | none =>
    right
    rw [hl] at h
    dsimp only at h ⊢
    split at h
    · rename_i hit hfind
      obtain ⟨nested, hk, hhit⟩ := mem_nestedHits.mp ((List.mem_insertionSort _).mp (List.mem_of_find?_eq_some hfind))
      exact ⟨rfl, hit.1, nested, hk, hhit⟩
    · cases h

/-- A nested dict in which the search finds something, where there is no item
for the field itself. -/
theorem searched_of_nested (hl : d.lookup field = none) (hk : (key, .dict nested) ∈ d)
    (h : (searched field nested).isNull = false) : (searched field d).isNull = false := by
  rw [searched, pickField, hl]
  dsimp only
  split
  · rename_i hit hfind
    simpa using List.find?_some hfind
  · rename_i hnone
    have hmem : (key, searched field nested) ∈ (nestedHits field d).insertionSort fun a b => a.1 ≤ b.1 :=
      (List.mem_insertionSort _).mpr (mem_nestedHits.mpr ⟨nested, hk, rfl⟩)
    have hnot := List.find?_eq_none.mp hnone _ hmem
    simp [h] at hnot

/-- What the search finds occurs, behind no null. -/
theorem occurs_searched (d : Attrs) (h : (searched field d).isNull = false) :
    Occurs (NotNull field) field d (searched field d) := by
  obtain hl | ⟨hl, key, nested, hk, heq⟩ := searched_cases h
  · exact ⟨d, .here d, hl, h⟩
  · have hlt : sizeOf nested < sizeOf d := by
      have := List.sizeOf_lt_of_mem hk
      simp at this
      omega
    rw [heq] at h ⊢
    obtain ⟨e, hreach, he⟩ := occurs_searched nested h
    refine ⟨e, .down (fun v hv => ?_) hk hreach, he⟩
    rw [hl] at hv
    cases hv
termination_by sizeOf d

/-- The search finds something where the field occurs with a value, behind no null. -/
theorem searched_of_occurs (h : Occurs (NotNull field) field d v) : (searched field d).isNull = false := by
  obtain ⟨e, hreach, he, hv⟩ := h
  induction hreach with
  | here d =>
    rw [searched, pickField, he]
    exact hv
  | @down d nested e key hd hk hreach ih =>
    cases hl : d.lookup field with
    | some w =>
      rw [searched, pickField, hl]
      exact hd w hl
    | none => exact searched_of_nested hl hk (ih he)

/-- The search for a bare name returns an occurrence, and returns one where
there is one, exactly unless each is behind a null. -/
theorem resolveField_finds_iff (toolInput : Attrs) (field : String) (hbare : '.' ∉ field.toList) :
    (((resolveField toolInput field).isNull = false ↔ ∃ v, Occurs (fun _ => True) field toolInput v) ∧
        ((resolveField toolInput field).isNull = false →
          Occurs (fun _ => True) field toolInput (resolveField toolInput field))) ↔
      ((∃ v, Occurs (fun _ => True) field toolInput v) → ∃ v, Occurs (NotNull field) field toolInput v) := by
  have hsound : (searched field toolInput).isNull = false →
      Occurs (fun _ => True) field toolInput (searched field toolInput) := by
    intro h
    obtain ⟨e, hreach, he⟩ := occurs_searched toolInput h
    exact ⟨e, hreach.mono fun _ _ => trivial, he⟩
  rw [resolveField_bare hbare]
  constructor
  · rintro ⟨hiff, -⟩ h
    exact ⟨_, occurs_searched toolInput (hiff.mpr h)⟩
  · intro h
    refine ⟨⟨fun hnull => ⟨_, hsound hnull⟩, fun hoccurs => ?_⟩, hsound⟩
    obtain ⟨v, hv⟩ := h hoccurs
    exact searched_of_occurs hv

theorem resolveField_finds_iff_request :
    let toolInput : Attrs := [("request", .dict [("amount_usd", .int 900)])]
    (((resolveField toolInput "amount_usd").isNull = false ↔ ∃ v, Occurs (fun _ => True) "amount_usd" toolInput v) ∧
        ((resolveField toolInput "amount_usd").isNull = false →
          Occurs (fun _ => True) "amount_usd" toolInput (resolveField toolInput "amount_usd"))) ↔
      ((∃ v, Occurs (fun _ => True) "amount_usd" toolInput v) → ∃ v, Occurs (NotNull "amount_usd") "amount_usd" toolInput v) :=
  resolveField_finds_iff _ "amount_usd" (by decide)

/-- A null beside the request hides its amount from the search, and the call from the gate. -/
theorem resolveField_misses :
    let request : Attrs := [("amount_usd", .int 900)]
    let toolInput : Attrs := [("amount_usd", .null), ("request", .dict request)]
    let policy : ApprovalPolicy := ⟨"issue_payment", "amount_usd", .gt, .fin (.ofInt 500 (by decide))⟩
    Occurs (fun _ => True) "amount_usd" toolInput (.int 900) ∧ (resolveField toolInput "amount_usd").isNull ∧
      policy.requiresApproval "issue_payment" toolInput = false ∧
      policy.requiresApproval "issue_payment" [("request", .dict request)] = true := by
  intro request toolInput policy
  have hnested : ("request", .dict request) ∈ toolInput := List.mem_cons_of_mem _ List.mem_cons_self
  refine ⟨⟨request, .down trivial hnested (.here request), rfl, rfl⟩, ?_, ?_, ?_⟩
  · decide +kernel
  · decide +kernel
  · decide +kernel

/-! ## Reordering keys -/

/-- The keys of one dict are in another order, somewhere in the value; no two
keys of a dict are one. -/
inductive Reorder : Value → Value → Prop
  | keys {kvs kvs' : Attrs} (hn : (kvs.map Prod.fst).Nodup) (hp : kvs.Perm kvs') : Reorder (.dict kvs) (.dict kvs')
  | item (before after : Attrs) (key : String) {v w : Value} (h : Reorder v w) :
    Reorder (.dict (before ++ (key, v) :: after)) (.dict (before ++ (key, w) :: after))
  | element (before after : List Value) {v w : Value} (h : Reorder v w) :
    Reorder (.list (before ++ v :: after)) (.list (before ++ w :: after))

/-- The same value but for the order of its dicts' keys. -/
abbrev Reorders : Value → Value → Prop := Relation.ReflTransGen Reorder

section

variable {d' : Attrs} {w : Value}

/-- What no reordering changes. -/
theorem Reorders.congr {α : Type} {f : Value → α} (hf : ∀ v w, Reorder v w → f v = f w) (h : Reorders v w) : f v = f w := by
  induction h with
  | refl => rfl
  | tail h hstep ih => exact ih.trans (hf _ _ hstep)

theorem Reorders.isNull (h : Reorders v w) : v.isNull = w.isNull :=
  h.congr fun v w hstep => by cases hstep <;> rfl

theorem Reorders.number (h : Reorders v w) : v.number? = w.number? :=
  h.congr fun v w hstep => by cases hstep <;> rfl

/-- An item's value reordered. -/
theorem Reorders.item (before : Attrs) {after : Attrs} (h : Reorders v w) :
    Reorders (.dict (before ++ (key, v) :: after)) (.dict (before ++ (key, w) :: after)) :=
  Relation.ReflTransGen.lift (p := Reorder) (fun v => .dict (before ++ (key, v) :: after)) (fun _ _ hstep => Reorder.item _ _ _ hstep)
    v w h

/-- What is looked up does not depend on the order of distinct keys. -/
theorem lookup_perm (hn : (d.map Prod.fst).Nodup) (hp : d.Perm d') (name : String) : d.lookup name = d'.lookup name := by
  induction hp with
  | nil => rfl
  | cons kv hp ih =>
    rw [List.map_cons, List.nodup_cons] at hn
    rw [List.lookup_cons, List.lookup_cons, ih hn.2]
  | swap a b d =>
    obtain ⟨key, v⟩ := a
    obtain ⟨key', v'⟩ := b
    rw [List.map_cons, List.map_cons, List.nodup_cons, List.mem_cons, not_or] at hn
    simp only [List.lookup_cons]
    cases h : name == key with
    | true =>
      have h' : (name == key') = false := by
        rw [beq_iff_eq.mp h]
        exact beq_eq_false_iff_ne.mpr (Ne.symm hn.1.1)
      simp only [h']
    | false => rfl
  | trans hp hp' ih ih' => exact (ih hn).trans (ih' ((hp.map Prod.fst).nodup_iff.mp hn))

/-- An item, or none, in the same place. -/
def AlikeOption : Option Value → Option Value → Prop
  | some v, some w => Reorders v w
  | none, none => True
  | _, _ => False

theorem AlikeOption.refl (v : Option Value) : AlikeOption v v := by
  cases v with
  | none => trivial
  | some v => exact Relation.ReflTransGen.refl

theorem Reorder.lookup (h : Reorder (.dict d) (.dict d')) (name : String) : AlikeOption (d.lookup name) (d'.lookup name) := by
  cases h with
  | keys hn hp =>
    rw [lookup_perm hn hp]
    exact .refl _
  | item before after key h =>
    rw [List.lookup_append, List.lookup_append]
    cases before.lookup name with
    | some u => exact .refl _
    | none =>
      rw [Option.none_or, Option.none_or, List.lookup_cons, List.lookup_cons]
      cases name == key with
      | true => exact .single h
      | false => exact .refl _

/-! ## The search of reordered dicts -/

/-- Items of one key, with the same value but for its order. -/
def Alike (a b : String × Value) : Prop := a.1 = b.1 ∧ Reorders a.2 b.2

instance : Std.Refl Alike := ⟨fun _ => ⟨rfl, .refl⟩⟩

variable {hits hits' : Attrs}

theorem alike_orderedInsert {a b : String × Value} (hab : Alike a b) (h : List.Forall₂ Alike hits hits') :
    List.Forall₂ Alike (hits.orderedInsert (fun a b => a.1 ≤ b.1) a) (hits'.orderedInsert (fun a b => a.1 ≤ b.1) b) := by
  induction h with
  | nil => exact .cons hab .nil
  | cons hc hrest ih =>
    rw [List.orderedInsert_cons, List.orderedInsert_cons, hab.1, hc.1]
    split
    · exact .cons hab (.cons hc hrest)
    · exact .cons hc ih

theorem alike_insertionSort (h : List.Forall₂ Alike hits hits') :
    List.Forall₂ Alike (hits.insertionSort fun a b => a.1 ≤ b.1) (hits'.insertionSort fun a b => a.1 ≤ b.1) := by
  induction h with
  | nil => exact .nil
  | cons hab _ ih => exact alike_orderedInsert hab ih

theorem alike_find (h : List.Forall₂ Alike hits hits') :
    AlikeOption ((hits.find? fun hit => !hit.2.isNull).map Prod.snd) ((hits'.find? fun hit => !hit.2.isNull).map Prod.snd) := by
  induction h with
  | nil => trivial
  | @cons a b _ _ hab _ ih =>
    rw [List.find?_cons, List.find?_cons, ← hab.2.isNull]
    cases a.2.isNull with
    | true => exact ih
    | false => exact hab.2

/-- The first finding that is not None, by sorted key. -/
def firstHit (hits : Attrs) : Option Value :=
  ((hits.insertionSort fun a b => a.1 ≤ b.1).find? fun hit => !hit.2.isNull).map Prod.snd

theorem pickField_eq (field : String) (d hits : Attrs) :
    pickField field d hits = (d.lookup field).getD ((firstHit hits).getD .null) := by
  rw [pickField, firstHit]
  cases d.lookup field with
  | some v => rfl
  | none =>
    dsimp only
    cases (hits.insertionSort fun a b => a.1 ≤ b.1).find? fun hit => !hit.2.isNull <;> rfl

theorem alike_firstHit (h : List.Forall₂ Alike hits hits') : AlikeOption (firstHit hits) (firstHit hits') :=
  alike_find (alike_insertionSort h)

/-- Findings in another order, under distinct keys. -/
theorem firstHit_perm (hn : (hits.map Prod.fst).Nodup) (hp : hits.Perm hits') : firstHit hits = firstHit hits' := by
  have hsorted (hits : Attrs) : (hits.insertionSort fun a b => a.1 ≤ b.1).Pairwise fun a b => a.1 ≤ b.1 := by
    have htotal : Std.Total fun a b : String × Value => a.1 ≤ b.1 := ⟨fun a b => String.le_total a.1 b.1⟩
    have htrans : IsTrans (String × Value) fun a b => a.1 ≤ b.1 := ⟨fun _ _ _ => String.le_trans⟩
    exact List.pairwise_insertionSort _ hits
  have heq : (hits.insertionSort fun a b => a.1 ≤ b.1) = hits'.insertionSort fun a b => a.1 ≤ b.1 := by
    refine List.Perm.eq_of_pairwise (fun a b ha hb hab hba => ?_) (hsorted hits) (hsorted hits') ?_
    · have ha := (List.mem_insertionSort _).mp ha
      have hb := hp.mem_iff.mpr ((List.mem_insertionSort _).mp hb)
      exact List.inj_on_of_nodup_map hn ha hb (String.le_antisymm hab hba)
    · exact (List.perm_insertionSort _ hits).trans (hp.trans (List.perm_insertionSort _ hits').symm)
  rw [firstHit, firstHit, heq]

theorem AlikeOption.getD {a b : Option Value} (h : AlikeOption a b) (hd : Reorders v w) : Reorders (a.getD v) (b.getD w) := by
  cases a with
  | none =>
    cases b with
    | none => exact hd
    | some w => cases h
  | some v =>
    cases b with
    | none => cases h
    | some w => exact h

theorem keys_nestedHits (field : String) (d : Attrs) : ((nestedHits field d).map Prod.fst).Sublist (d.map Prod.fst) := by
  induction d with
  | nil => exact List.Sublist.slnil
  | cons kv d ih =>
    obtain ⟨key, v⟩ := kv
    rw [nestedHits]
    cases nestedHit field v with
    | none => exact ih.cons key
    | some hit => exact ih.cons_cons key

theorem nestedHits_append (field : String) (d d' : Attrs) :
    nestedHits field (d ++ d') = nestedHits field d ++ nestedHits field d' := by
  rw [nestedHits_eq, nestedHits_eq, nestedHits_eq, List.filterMap_append]

/-- A reordering of one dict's keys, somewhere in it, reorders what the search of a dict finds. -/
theorem Reorder.searched (h : Reorder v w) : ∀ d d', v = .dict d → w = .dict d' →
    Reorders (searched field d) (searched field d') := by
  induction h with
  | @keys kvs kvs' hn hp =>
    rintro d d' hd hd'
    cases hd
    cases hd'
    have hhits : (nestedHits field kvs).Perm (nestedHits field kvs') := by
      rw [nestedHits_eq, nestedHits_eq]
      exact hp.filterMap _
    have hkeys : ((nestedHits field kvs).map Prod.fst).Nodup := hn.sublist (keys_nestedHits field kvs)
    rw [ControlPlane.searched, ControlPlane.searched, pickField_eq, pickField_eq, lookup_perm hn hp,
      firstHit_perm hkeys hhits]
  | @item before after key v w h ih =>
    rintro d d' hd hd'
    cases hd
    cases hd'
    have hhits : List.Forall₂ Alike (nestedHits field (before ++ (key, v) :: after))
        (nestedHits field (before ++ (key, w) :: after)) := by
      have hsame (hits : Attrs) : List.Forall₂ Alike hits hits := List.forall₂_refl hits
      rw [nestedHits_append, nestedHits_append]
      refine List.rel_append (hsame _) ?_
      rw [nestedHits, nestedHits]
      cases h with
      | keys hn hp => exact .cons ⟨rfl, ih _ _ rfl rfl⟩ (hsame _)
      | item _ _ _ h => exact .cons ⟨rfl, ih _ _ rfl rfl⟩ (hsame _)
      | element _ _ h => exact hsame _
    rw [ControlPlane.searched, ControlPlane.searched, pickField_eq, pickField_eq]
    exact ((Reorder.item before after key h).lookup field).getD ((alike_firstHit hhits).getD .refl)
  | element _ _ h ih =>
    rintro d d' hd
    cases hd

/-- A chain of reorderings of a dict, each step of which reorders what `f` gives of it. -/
theorem Reorders.lift {f : Attrs → Value} (hf : ∀ d d', Reorder (.dict d) (.dict d') → Reorders (f d) (f d'))
    (h : Reorders (.dict d) w) : ∃ d', w = .dict d' ∧ Reorders (f d) (f d') := by
  induction h with
  | refl => exact ⟨d, rfl, .refl⟩
  | tail _ hstep ih =>
    obtain ⟨d₁, rfl, hd⟩ := ih
    cases hstep with
    | keys hn hp => exact ⟨_, rfl, hd.trans (hf _ _ (.keys hn hp))⟩
    | item before after key h => exact ⟨_, rfl, hd.trans (hf _ _ (.item before after key h))⟩

/-- The same of values that are dicts. -/
theorem Reorders.lift_dict {f : Attrs → Value} (hf : ∀ d d', Reorder (.dict d) (.dict d') → Reorders (f d) (f d'))
    (h : Reorders (.dict d) (.dict d')) : Reorders (f d) (f d') := by
  obtain ⟨_, e, hd⟩ := h.lift hf
  cases e
  exact hd

/-- The value at a path. -/
theorem followPath_reorders (parts : List String) (h : Reorders v w) : Reorders (followPath parts v) (followPath parts w) := by
  induction parts generalizing v w with
  | nil => exact h
  | cons part parts ih =>
    induction h with
    | refl => exact .refl
    | @tail u w _ hstep hrest =>
      refine hrest.trans ?_
      cases u with
      | dict d =>
        obtain ⟨d', rfl, -⟩ := Reorders.lift (f := .dict) (fun _ _ => .single) (.single hstep)
        have hl := hstep.lookup part
        rw [followPath, followPath]
        cases hd : d.lookup part with
        | none =>
          cases hd' : d'.lookup part with
          | none => exact .refl
          | some w => simp only [hd, hd', AlikeOption] at hl
        | some u =>
          cases hd' : d'.lookup part with
          | none => simp only [hd, hd', AlikeOption] at hl
          | some w =>
            simp only [hd, hd', AlikeOption] at hl
            exact ih hl
      | list xs =>
        cases hstep
        exact .refl
      | _ => cases hstep

/-- What the policy's field resolves to. -/
theorem resolveField_reordered (h : Reorders (.dict d) (.dict d')) (field : String) :
    Reorders (resolveField d field) (resolveField d' field) := by
  by_cases hdot : '.' ∈ field.toList
  · rw [resolveField, resolveField, if_pos hdot, if_pos hdot]
    exact followPath_reorders _ h
  · rw [resolveField_bare hdot, resolveField_bare hdot]
    exact h.lift_dict fun d d' hstep => hstep.searched d d' rfl rfl

theorem requiresApproval_reordered (h : Reorders (.dict d) (.dict d')) (policy : ApprovalPolicy) (toolName : String) :
    policy.requiresApproval toolName d = policy.requiresApproval toolName d' := by
  rw [ApprovalPolicy.requiresApproval, ApprovalPolicy.requiresApproval, (resolveField_reordered h policy.field).number]

end

/-! ## The gate on reordered inputs -/

/-- The same event, but for the order of keys in the call's input. -/
structure SameEvent (event event' : BeforeToolCallEvent) : Prop where
  name : event.toolUse.name = event'.toolUse.name
  input : Reorders (.dict event.toolUse.input) (.dict event'.toolUse.input)
  cancelTool : event.cancelTool = event'.cancelTool

/-- The same interrupt, but for the order of keys in its reason; or the same error. -/
inductive SameStop : Stop → Stop → Prop
  | interrupt (name : String) {reason reason' : Attrs} (h : Reorders (.dict reason) (.dict reason')) :
    SameStop (.interrupt name reason) (.interrupt name reason')
  | error (e : Raised) : SameStop (.error e) (.error e)

inductive SameResult : Except Stop BeforeToolCallEvent → Except Stop BeforeToolCallEvent → Prop
  | returns {event event' : BeforeToolCallEvent} (h : SameEvent event event') : SameResult (.ok event) (.ok event')
  | stops {stop stop' : Stop} (h : SameStop stop stop') : SameResult (.error stop) (.error stop')

/-- On the same events the callback does the same. -/
def Unordered (callback : Callback) : Prop :=
  ∀ event event', SameEvent event event' → SameResult (callback event) (callback event')

theorem approvalGate_unordered (policy : Option ApprovalPolicy) (stored : Option String) :
    Unordered (approvalGate policy stored) := by
  intro event event' h
  cases policy with
  | none => exact .returns h
  | some policy =>
    have hverdict := requiresApproval_reordered h.input policy event.toolUse.name
    rw [approvalGate, approvalGate, ← h.name, ← hverdict]
    cases policy.requiresApproval event.toolUse.name event.toolUse.input with
    | false => exact .returns h
    | true =>
      cases stored with
      | none =>
        refine .stops (.interrupt interruptName ?_)
        rw [ApprovalPolicy.reason, ApprovalPolicy.reason, ← h.name]
        exact h.input.item [_]
      | some decision =>
        show SameResult (if decision ≠ approve then _ else _) (if decision ≠ approve then _ else _)
        split
        · exact .returns ⟨h.name, h.input, rfl⟩
        · exact .returns h

theorem guardrailGate_unordered (guardedTools : List String) (verdict : Except Raised GuardrailVerdict) :
    Unordered (guardrailGate guardedTools verdict) := by
  intro event event' h
  unfold guardrailGate
  rw [← h.name]
  split
  · exact .returns h
  · cases verdict with
    | error e => exact .stops (.error e)
    | ok verdict =>
      dsimp only
      split
      · exact .returns ⟨h.name, h.input, rfl⟩
      · exact .returns h

theorem invokeCallbacks_unordered {callbacks : List Callback} (hc : ∀ callback ∈ callbacks, Unordered callback)
    {event event' : BeforeToolCallEvent} (h : SameEvent event event') :
    SameEvent (invokeCallbacks callbacks event).1 (invokeCallbacks callbacks event').1 ∧
      List.Forall₂ SameStop (invokeCallbacks callbacks event).2 (invokeCallbacks callbacks event').2 := by
  induction callbacks generalizing event event' with
  | nil => exact ⟨h, .nil⟩
  | cons callback rest ih =>
    rw [List.forall_mem_cons] at hc
    have hresult := hc.1 event event' h
    rw [invokeCallbacks, invokeCallbacks]
    cases hr : callback event <;> cases hr' : callback event' <;> rw [hr, hr'] at hresult <;> cases hresult
    · rename_i hstop
      exact ⟨(ih hc.2 h).1, .cons hstop (ih hc.2 h).2⟩
    · rename_i hevent
      exact ih hc.2 hevent

theorem any_unordered {f : Stop → Bool} (hf : ∀ stop stop', SameStop stop stop' → f stop = f stop') {stops stops' : List Stop}
    (h : List.Forall₂ SameStop stops stops') : stops.any f = stops'.any f := by
  induction h with
  | nil => rfl
  | cons hstop _ ih => rw [List.any_cons, List.any_cons, ih, hf _ _ hstop]

/-- A pass comes out the same. -/
theorem runPass_unordered {callbacks : List Callback} (hc : ∀ callback ∈ callbacks, Unordered callback)
    {toolUse toolUse' : ToolUse} (hname : toolUse.name = toolUse'.name)
    (h : Reorders (.dict toolUse.input) (.dict toolUse'.input)) : runPass callbacks toolUse = runPass callbacks toolUse' := by
  have hfresh : SameEvent { toolUse := toolUse } { toolUse := toolUse' } := ⟨hname, h, rfl⟩
  obtain ⟨hevent, hstops⟩ := invokeCallbacks_unordered hc hfresh
  rw [runPass, runPass]
  generalize invokeCallbacks callbacks { toolUse := toolUse } = r at hevent hstops ⊢
  generalize invokeCallbacks callbacks { toolUse := toolUse' } = r' at hevent hstops ⊢
  obtain ⟨event, stops⟩ := r
  obtain ⟨event', stops'⟩ := r'
  have hcancel : event.cancelTool = event'.cancelTool := hevent.cancelTool
  dsimp only at hstops ⊢
  rw [any_unordered (fun _ _ hstop => by cases hstop <;> rfl) hstops, BeforeToolCallEvent.cancelled, BeforeToolCallEvent.cancelled, hcancel]
  have hnil : stops ≠ [] ↔ stops' ≠ [] := by
    cases hstops with
    | nil => exact Iff.rfl
    | cons _ _ => simp
  simp only [hnil]

/-- Reordering the input changes nothing of a whole call, original run or replay. -/
theorem toolCall_unordered (approvalFirst : Bool) (policy : Option ApprovalPolicy) (guardedTools : List String)
    {toolUse toolUse' : ToolUse} (hname : toolUse.name = toolUse'.name)
    (h : Reorders (.dict toolUse.input) (.dict toolUse'.input)) (stored : Option String) (passes : List Pass) :
    toolCall approvalFirst policy guardedTools toolUse stored passes =
      toolCall approvalFirst policy guardedTools toolUse' stored passes := by
  have hgates (stored : Option String) (verdict : Except Raised GuardrailVerdict) :
      ∀ callback ∈ gates approvalFirst policy guardedTools stored verdict, Unordered callback := by
    have happroval := approvalGate_unordered policy stored
    have hguardrail := guardrailGate_unordered guardedTools verdict
    rw [gates]
    cases approvalFirst <;> simp [happroval, hguardrail]
  induction passes generalizing stored with
  | nil => rfl
  | cons pass rest ih =>
    rw [toolCall, toolCall, runPass_unordered (hgates _ _) hname h]
    cases hpass : runPass (gates approvalFirst policy guardedTools (pass.response.or stored) pass.verdict) toolUse' with
    | suspended => exact ih _
    | _ => rfl

/-- **Order of keys.** On inputs that differ in the order of keys alone, of any
of their dicts, a policy's field resolves to the same value but for that order,
the policy gives the same verdict, the gate raises the same interrupts, and a
call comes out the same pass after pass. -/
theorem resolveField_reorders (toolInput toolInput' : Attrs) (h : Reorders (.dict toolInput) (.dict toolInput')) :
    (∀ field, Reorders (resolveField toolInput field) (resolveField toolInput' field)) ∧
    (∀ (policy : ApprovalPolicy) toolName,
      policy.requiresApproval toolName toolInput = policy.requiresApproval toolName toolInput') ∧
    (∀ policy stored toolName cancelTool,
      SameResult (approvalGate policy stored ⟨⟨toolName, toolInput⟩, cancelTool⟩)
        (approvalGate policy stored ⟨⟨toolName, toolInput'⟩, cancelTool⟩)) ∧
    ∀ approvalFirst policy guardedTools toolName stored passes,
      toolCall approvalFirst policy guardedTools ⟨toolName, toolInput⟩ stored passes =
        toolCall approvalFirst policy guardedTools ⟨toolName, toolInput'⟩ stored passes := by
  refine ⟨resolveField_reordered h, requiresApproval_reordered h, fun policy stored toolName cancelTool => ?_,
    fun approvalFirst policy guardedTools toolName stored passes => ?_⟩
  · exact approvalGate_unordered policy stored _ _ ⟨rfl, h, rfl⟩
  · exact @toolCall_unordered approvalFirst policy guardedTools ⟨toolName, toolInput⟩ ⟨toolName, toolInput'⟩ rfl h stored
      passes

theorem resolveField_reorders_request :
    let request : Attrs := [("vendor", .str "V-7"), ("amount_usd", .int 900)]
    let again : Attrs := [("amount_usd", .int 900), ("vendor", .str "V-7")]
    let policy : ApprovalPolicy := ⟨"issue_payment", "amount_usd", .gt, .fin (.ofInt 500 (by decide))⟩
    policy.requiresApproval "issue_payment" [("request", .dict request)] =
      policy.requiresApproval "issue_payment" [("request", .dict again)] := by
  intro request again policy
  have hkeys : Reorder (.dict request) (.dict again) := .keys (by decide) (List.Perm.swap ..)
  have hitem : Reorder (.dict [("request", .dict request)]) (.dict [("request", .dict again)]) := .item [] [] "request" hkeys
  exact (resolveField_reorders _ _ (.single hitem)).2.1 policy "issue_payment"

end ControlPlane
