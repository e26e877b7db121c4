import ControlPlane.Lib.Ends

/-!
# Changes that carry a token

A cell is described with a token, which every change of it renews; a change
carries a token, and is refused unless it is the cell's (`cell`). A thread that
describes the cell before each change it makes (`transaction`) changes it as it
was described, or not at all, whatever the others do.

* `Serial`: the changes, one after another, from the first state to the last,
  each made in the state that its thread was last described.
* `within_transaction`: a transaction amid others, of a thread with a plan of
  the changes it makes.
* `run_serial`: what is so of every schedule of such threads.
-/

namespace Token

open Effect

variable {ι ε α S Call D : Type}

inductive CellOp (Call : Type)
  | describe
  | change (call : Call) (token : ℕ)

def CellOp.Ans (S : Type) : CellOp Call → Type
  | describe => S × ℕ
  | change _ _ => Unit

def CellSig (S Call : Type) : Sig := ⟨CellOp Call, CellOp.Ans S⟩

/-- A change that was made, and what its thread was last told. -/
structure Change (ι S Call : Type) where
  thread : ι
  call : Call
  described : Option S

structure Cell (ι S Call : Type) where
  state : S
  token : ℕ := 0
  described : ι → Option S := fun _ => none
  changes : List (Change ι S Call) := []

section

variable [DecidableEq ι]

def cell (apply : Call → S → Except ε S) (conflict : ε) (i : ι) : Handler (CellSig S Call) ε D (Cell ι S Call)
  | .describe, _, w => .ok ((w.state, w.token), { w with described := Function.update w.described i (some w.state) })
  | .change call token, _, w =>
    if token = w.token then
      match apply call w.state with
      | .error e => .error e
      | .ok state => .ok ((), { w with
          state := state
          token := w.token + 1
          changes := w.changes ++ [⟨i, call, w.described i⟩] })
    else .error conflict

end

def describe : Prog (CellSig S Call) ε (S × ℕ) := Prog.op (S := CellSig S Call) .describe

def transaction (call : Call) : Prog (CellSig S Call) ε Unit := do
  let (_, token) ← describe
  Prog.op (S := CellSig S Call) (.change call token)

/-- One change after another, each in the state that it was decided in. -/
def Serial (apply : Call → S → Except ε S) : S → List (Change ι S Call) → S → Prop
  | s, [], s' => s = s'
  | s, change :: changes, s' => change.described = some s ∧ ∃ s₁, apply change.call s = .ok s₁ ∧ Serial apply s₁ changes s'

theorem serial_snoc {apply : Call → S → Except ε S} {s s₁ s₂ : S} {changes : List (Change ι S Call)}
    {change : Change ι S Call} (h : Serial apply s changes s₁) (hd : change.described = some s₁)
    (ha : apply change.call s₁ = .ok s₂) : Serial apply s (changes ++ [change]) s₂ := by
  induction changes generalizing s with
  | nil =>
    cases h
    exact ⟨hd, s₂, ha, rfl⟩
  | cons c changes ih =>
    obtain ⟨hc, s', hs', hrest⟩ := h
    exact ⟨hc, s', hs', ih hrest⟩

variable [DecidableEq ι]

/-- The changes that a thread made. -/
def made (i : ι) (w : Cell ι S Call) : List Call := (w.changes.filter fun c => c.thread = i).map Change.call

/-- The changes are serial, and each thread's are the first of its plan. -/
structure Kept (apply : Call → S → Except ε S) (first : S) (plan : ι → List Call) (w : Cell ι S Call) : Prop where
  serial : Serial apply first w.changes w.state
  planned : ∀ i, made i w <+: plan i

/-- What a thread relies on: a token is of one state, and the thread's changes
and what it was told stay. -/
structure Rely (i : ι) (w w' : Cell ι S Call) : Prop where
  token : w.token ≤ w'.token
  state : w'.token = w.token → w'.state = w.state
  described : w'.described i = w.described i
  made : made i w' = made i w

def Guarantee (i : ι) (w w' : Cell ι S Call) : Prop := ∀ j, j ≠ i → Rely j w w'

theorem Rely.refl (i : ι) (w : Cell ι S Call) : Rely i w w := ⟨Nat.le_refl _, fun _ => rfl, rfl, rfl⟩

theorem Rely.trans {i : ι} {w₁ w₂ w₃ : Cell ι S Call} (h : Rely i w₁ w₂) (h' : Rely i w₂ w₃) : Rely i w₁ w₃ where
  token := Nat.le_trans h.token h'.token
  state := by
    intro ht
    have h₂ : w₂.token = w₁.token := by
      have := h.token
      have := h'.token
      omega
    exact (h'.state (ht.trans h₂.symm)).trans (h.state h₂)
  described := h'.described.trans h.described
  made := h'.made.trans h.made

section

variable {apply : Call → S → Except ε S} {conflict : ε} {first : S} {plan : ι → List Call} {i : ι}
variable {w : Cell ι S Call} {Q : Except ε α → Cell ι S Call → Prop}

/-- A description, and what follows it. -/
theorem within_describe {k : S × ℕ → Prog (CellSig S Call) ε α}
    (hk : ∀ w₁ : Cell ι S Call, Rely i w w₁ → Kept apply first plan w₁ → ∀ w₂ : Cell ι S Call,
      w₂ = { w₁ with described := Function.update w₁.described i (some w₁.state) } →
        Within (cell (D := D) apply conflict i) (Kept apply first plan) (Rely i) (Guarantee i) Q (k (w₁.state, w₁.token)) w₂) :
    Within (cell (D := D) apply conflict i) (Kept apply first plan) (Rely i) (Guarantee i) Q (describe >>= k) w := by
  intro w₁ hR hI c
  refine ⟨fun e he => (by cases he), fun a w₂ hc => ?_⟩
  cases hc
  refine ⟨⟨hI.serial, hI.planned⟩, fun j hj => ?_, hk w₁ hR hI _ rfl⟩
  exact ⟨Nat.le_refl _, fun _ => rfl, Function.update_of_ne hj _ _, rfl⟩

/-- A transaction makes its change in the state it was described, or none. -/
theorem within_transaction {made' : List Call} {call : Call} (hw : made i w = made') (hplan : made' ++ [call] <+: plan i) :
    Within (cell (D := D) apply conflict i) (Kept apply first plan) (Rely i) (Guarantee i)
      (fun r w => r = .ok () → made i w = made' ++ [call]) (transaction call) w := by
  refine within_describe fun w₁ h₁ hI₁ w₂ hw₂ => ?_
  intro w₃ h₃ hI₃ c
  have hdescribed : w₃.described i = some w₁.state := by
    rw [h₃.described, hw₂]
    exact Function.update_self _ _ _
  have hmade : made i w₃ = made' := by
    rw [h₃.made, hw₂]
    exact h₁.made.trans hw
  refine ⟨fun e _ h => (by cases h), fun a w₄ hc => ?_⟩
  simp only [cell] at hc
  split at hc
  · rename_i htoken
    split at hc
    · cases hc
    · rename_i state happly
      cases hc
      -- the token is still that of the state that was described
      have hstate : w₃.state = w₁.state := by
        rw [hw₂] at h₃
        exact h₃.state htoken.symm
      have hmine : made i { w₃ with
          state := state, token := w₃.token + 1, changes := w₃.changes ++ [⟨i, call, w₃.described i⟩] } = made' ++ [call] := by
        simp only [made, List.filter_append, List.map_append]
        rw [show (w₃.changes.filter fun c => c.thread = i).map Change.call = made' from hmade]
        simp
      have hothers (j : ι) (hj : j ≠ i) : made j { w₃ with
          state := state, token := w₃.token + 1, changes := w₃.changes ++ [⟨i, call, w₃.described i⟩] } = made j w₃ := by
        simp only [made, List.filter_append, List.map_append]
        simp [Ne.symm hj]
      refine ⟨⟨serial_snoc hI₃.serial (by rw [hdescribed, hstate]) happly, fun j => ?_⟩, fun j hj => ?_, fun _ => hmine⟩
      · by_cases hj : j = i
        · subst hj
          rw [hmine]
          exact hplan
        · rw [hothers j hj]
          exact hI₃.planned j
      · exact ⟨Nat.le_succ _, fun h => absurd h (Nat.succ_ne_self _), rfl, hothers j hj⟩
  · cases hc

/-- **Serial changes.** Of threads that keep to their plans, whatever the
schedule, and whichever calls fail. -/
theorem run_serial {Q : ι → Except ε α → Cell ι S Call → Prop} {thread : ι → Prog (CellSig S Call) ε α} {e : ε}
    (hthread : ∀ i, Within (cell (D := D) apply conflict i) (Kept apply first plan) (Rely i) (Guarantee i) (Q i) (thread i)
      ⟨first, 0, fun _ => none, []⟩)
    (hQ : ∀ i r w w', Q i r w → Rely i w w' → Q i r w') (he : ∀ i w, Q i (.error e) w) (sched : List (ι × (Fate × D))) :
    ((⟨⟨first, 0, fun _ => none, []⟩, fun i => (thread i).lossy e⟩ : Pool _ ε α (Cell ι S Call) ι).run
      (fun i => (cell (D := D) apply conflict i).lossy) sched).Ending (fun i => (cell (D := D) apply conflict i).lossy)
        (Kept apply first plan) Rely Guarantee Q := by
  refine Pool.run_within Rely.refl (fun _ _ _ _ => Rely.trans) (fun i j w w' hij hG => hG j (Ne.symm hij)) hQ ?_ sched
  exact ⟨⟨rfl, fun i => List.nil_prefix⟩, fun i => (hthread i).lossy (fun w j _ => Rely.refl j w) (he i)⟩

end

end Token
