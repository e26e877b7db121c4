import ControlPlane.Lib.Machine
import Mathlib.Order.Lattice

/-!
# Runs that go on

A course is a run of a machine without an end: at each moment a step for an
action, or none (`Course`). Its states are what its actions lead to (`Course.run_history`), so
that invariants of runs hold of them. `Leads P Q`
says that whenever `P` holds, `Q` holds then or later. The rules for it take a
condition that stays until `Q` (`Unless`) and an action that ends it:

* `leads_of_weak`: the action can be taken as long as the condition holds, and
  what can be taken from some time on is taken;
* `leads_of_strong`: it can be taken again and again, and what can be taken
  again and again is taken.

`Course.still` is the course of a history that ends.
-/

namespace Machine

variable {S A : Type} {step : S → A → Option S} {s₀ : S}

/-- A run without an end. -/
structure Course (step : S → A → Option S) (s₀ : S) where
  state : ℕ → S
  action : ℕ → Option A
  start : state 0 = s₀
  next : ∀ n, (action n).elim (some (state n)) (step (state n)) = some (state (n + 1))

namespace Course

variable (c : Course step s₀)

theorem next_none {n : ℕ} (h : c.action n = none) : c.state (n + 1) = c.state n := by
  have hn := c.next n
  rw [h] at hn
  exact (Option.some.inj hn).symm

theorem next_some {n : ℕ} {a : A} (h : c.action n = some a) : step (c.state n) a = some (c.state (n + 1)) := by
  have hn := c.next n
  rw [h] at hn
  exact hn

/-- The actions before a moment. -/
def history (n : ℕ) : List A := (List.range n).filterMap c.action

theorem run_history (n : ℕ) : run step s₀ (c.history n) = some (c.state n) := by
  induction n with
  | zero => exact congrArg some c.start.symm
  | succ n ih =>
    have hsplit : c.history (n + 1) = c.history n ++ [n].filterMap c.action := by
      rw [history, List.range_succ, List.filterMap_append, ← history]
    rw [hsplit]
    cases ha : c.action n with
    | none =>
      rw [List.filterMap_cons_none ha, List.filterMap_nil, List.append_nil, c.next_none ha]
      exact ih
    | some a =>
      rw [List.filterMap_cons_some ha, List.filterMap_nil]
      exact run_snoc.mpr ⟨c.state n, ih, c.next_some ha⟩

/-- What holds at the start, and each moment keeps, holds at each. -/
theorem always {P : S → Prop} (h0 : P s₀)
    (hstep : ∀ n a, P (c.state n) → c.action n = some a → P (c.state (n + 1))) (n : ℕ) : P (c.state n) := by
  induction n with
  | zero =>
    rw [c.start]
    exact h0
  | succ n ih =>
    cases ha : c.action n with
    | none =>
      rw [c.next_none ha]
      exact ih
    | some a => exact hstep n a ih ha

/-! ## What leads to what -/

/-- `P` holds on, unless `Q` comes to hold. -/
def Unless (P Q : S → Prop) : Prop := ∀ n, P (c.state n) → P (c.state (n + 1)) ∨ Q (c.state (n + 1))

/-- Whenever `P` holds, `Q` does then or later. -/
def Leads (P Q : S → Prop) : Prop := ∀ n, P (c.state n) → ∃ m, n ≤ m ∧ Q (c.state m)

/-- At this moment or later an action of the kind is taken. -/
def Takes (taken : A → Prop) (n : ℕ) : Prop := ∃ m a, n ≤ m ∧ c.action m = some a ∧ taken a

/-- What can be taken from some time on, is taken. -/
def Weak (enabled : S → Prop) (taken : A → Prop) : Prop :=
  ∀ n, (∀ m, n ≤ m → enabled (c.state m)) → c.Takes taken n

/-- What can be taken again and again, is taken. -/
def Strong (enabled : S → Prop) (taken : A → Prop) : Prop :=
  ∀ n, (∀ k, n ≤ k → ∃ m, k ≤ m ∧ enabled (c.state m)) → c.Takes taken n

variable {c} {P Q R enabled : S → Prop} {taken : A → Prop}

/-- Only steps need be looked at. -/
theorem unless_of_steps (hstep : ∀ n a, P (c.state n) → c.action n = some a → P (c.state (n + 1)) ∨ Q (c.state (n + 1))) :
    c.Unless P Q := by
  intro n hn
  cases ha : c.action n with
  | none =>
    rw [c.next_none ha]
    exact .inl hn
  | some a => exact hstep n a hn ha

/-- Up to the first moment at which `Q` holds, `P` does. -/
theorem Unless.until (hu : c.Unless P Q) {n m : ℕ} (hn : P (c.state n)) (hm : n ≤ m) :
    P (c.state m) ∨ ∃ k, n ≤ k ∧ Q (c.state k) := by
  induction m, hm using Nat.le_induction with
  | base => exact .inl hn
  | succ m hm ih =>
    rcases ih with hp | hq
    · exact (hu m hp).imp_right fun hq => ⟨m + 1, by omega, hq⟩
    · exact .inr hq

theorem Leads.of_imp (h : ∀ s, P s → Q s) : c.Leads P Q := fun n hn => ⟨n, le_rfl, h _ hn⟩

theorem Leads.trans (h : c.Leads P Q) (h' : c.Leads Q R) : c.Leads P R := by
  intro n hn
  obtain ⟨m, hm, hq⟩ := h n hn
  obtain ⟨k, hk, hr⟩ := h' m hq
  exact ⟨k, hm.trans hk, hr⟩

/-- From either of two conditions. -/
theorem Leads.or {P' : S → Prop} (h : c.Leads P Q) (h' : c.Leads P' Q) : c.Leads (fun s => P s ∨ P' s) Q := by
  intro n hn
  rcases hn with hn | hn
  · exact h n hn
  · exact h' n hn

/-- Where either `Q` holds or what leads to it. -/
theorem Leads.finish (h : c.Leads P fun s => R s ∨ Q s) (h' : c.Leads R Q) : c.Leads P Q :=
  h.trans (h'.or (Leads.of_imp fun _ hq => hq))

/-- Where the condition holds, either it does so for good or `Q` comes. -/
theorem leads_of_takes (hu : c.Unless P Q)
    (ht : ∀ n a, P (c.state n) → c.action n = some a → taken a → Q (c.state (n + 1)))
    (htakes : ∀ n, (∀ m, n ≤ m → P (c.state m)) → c.Takes taken n) : c.Leads P Q := by
  intro n hn
  by_contra hnever
  have hstays : ∀ m, n ≤ m → P (c.state m) := fun m hm => (hu.until hn hm).resolve_right hnever
  obtain ⟨m, a, hm, ha, hta⟩ := htakes n hstays
  exact hnever ⟨m + 1, by omega, ht m a (hstays m hm) ha hta⟩

theorem leads_of_weak (hw : c.Weak enabled taken) (hu : c.Unless P Q) (he : ∀ s, P s → enabled s)
    (ht : ∀ n a, P (c.state n) → c.action n = some a → taken a → Q (c.state (n + 1))) : c.Leads P Q :=
  leads_of_takes hu ht fun n hn => hw n fun m hm => he _ (hn m hm)

theorem leads_of_strong (hs : c.Strong enabled taken) (hu : c.Unless P Q) (he : c.Leads P fun s => enabled s ∨ Q s)
    (ht : ∀ n a, P (c.state n) → c.action n = some a → taken a → Q (c.state (n + 1))) : c.Leads P Q := by
  intro n hn
  by_contra hnever
  have hstays : ∀ m, n ≤ m → P (c.state m) := fun m hm => (hu.until hn hm).resolve_right hnever
  have hagain (k : ℕ) (hk : n ≤ k) : ∃ m, k ≤ m ∧ enabled (c.state m) := by
    obtain ⟨m, hm, h⟩ := he k (hstays k hk)
    exact ⟨m, hm, h.resolve_right fun hq => hnever ⟨m, hk.trans hm, hq⟩⟩
  obtain ⟨m, a, hm, ha, hta⟩ := hs n hagain
  exact hnever ⟨m + 1, by omega, ht m a (hstays m hm) ha hta⟩

/-! ## A history that ends -/

/-- The state after the first actions of a history, all of which are enabled. -/
theorem run_take {h : List A} {s : S} (hr : run step s₀ h = some s) (n : ℕ) : ∃ s', run step s₀ (h.take n) = some s' := by
  rw [← List.take_append_drop n h, run_append, Option.bind_eq_bind, Option.bind_eq_some_iff] at hr
  obtain ⟨s', hs', -⟩ := hr
  exact ⟨s', hs'⟩

/-- A history's course: nothing is done when it is over. -/
def still (h : List A) {s : S} (hr : run step s₀ h = some s) : Course step s₀ where
  state n := (run step s₀ (h.take n)).getD s₀
  action n := h[n]?
  start := rfl
  next n := by
    cases ha : h[n]? with
    | none =>
      have hn : h.length ≤ n := List.getElem?_eq_none_iff.mp ha
      rw [Option.elim_none, List.take_of_length_le hn, List.take_of_length_le (by omega)]
    | some a =>
      have htake : h.take (n + 1) = h.take n ++ [a] := by
        rw [List.take_add_one, ha]
        rfl
      obtain ⟨t, ht⟩ := run_take hr (n + 1)
      have hstep := ht
      rw [htake] at hstep
      obtain ⟨s₁, h₁, hstep⟩ := run_snoc.mp hstep
      rw [Option.elim_some, h₁, ht]
      exact hstep

/-- When the history is over, its end stays. -/
theorem state_still {h : List A} {s : S} (hr : run step s₀ h = some s) {n : ℕ} (hn : h.length ≤ n) :
    (still h hr).state n = s := by
  have he : (still h hr).state n = (run step s₀ (h.take n)).getD s₀ := rfl
  rw [he, List.take_of_length_le hn, hr, Option.getD_some]

/-- What cannot be done at its end need not be done. -/
theorem weak_still {h : List A} {s : S} (hr : run step s₀ h = some s) (he : ¬ enabled s) :
    (still h hr).Weak enabled taken := by
  intro n hn
  have hend := hn (max n h.length) (le_max_left _ _)
  rw [state_still hr (le_max_right _ _)] at hend
  exact absurd hend he

theorem strong_still {h : List A} {s : S} (hr : run step s₀ h = some s) (he : ¬ enabled s) :
    (still h hr).Strong enabled taken := by
  intro n hn
  obtain ⟨m, hm, hend⟩ := hn (max n h.length) (le_max_left _ _)
  rw [state_still hr ((le_max_right _ _).trans hm)] at hend
  exact absurd hend he

end Course

end Machine
