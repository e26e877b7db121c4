import Mathlib.Data.List.Basic
import Mathlib.Tactic.Common

/-!
# Effects with a cleanup

A component runs an effect again when its dependencies have changed
(`Effect.sync`): the cleanup cancels the run before, then another starts, if
the effect does not return at once. What a run does later it does by itself
(`Effect.modify`), and it knows of the cleanup by its flag only.

`Lawful`: only the run whose cleanup is outstanding is live, and what it was
started with fits the dependencies that the effect last ran for.
-/

namespace Component

variable {D R : Type}

structure Run (R : Type) where
  state : R
  cancelled : Bool := false

structure Effect (D R : Type) where
  /-- Of the last time it ran. -/
  deps : Option D := none
  runs : List (Run R) := []
  /-- The run whose cleanup is outstanding. -/
  cleanup : Option ℕ := none

namespace Effect

def cancel (runs : List (Run R)) : Option ℕ → List (Run R)
  | some i => runs.modify i fun run => { run with cancelled := true }
  | none => runs

/-- The effect, with the dependencies of what is shown now. -/
def sync [DecidableEq D] (start : D → Option R) (deps : D) (e : Effect D R) : Effect D R :=
  if e.deps = some deps then e else
    match start deps with
    | some state =>
      { deps := some deps, runs := cancel e.runs e.cleanup ++ [{ state := state }], cleanup := some e.runs.length }
    | none => { deps := some deps, runs := cancel e.runs e.cleanup, cleanup := none }

def modify (i : ℕ) (f : R → R) (e : Effect D R) : Effect D R :=
  { e with runs := e.runs.modify i fun run => { run with state := f run.state } }

/-- Run `i` is not cancelled. -/
def Live (e : Effect D R) (i : ℕ) (state : R) : Prop := e.runs[i]? = some { state := state }

/-- Live runs have their cleanup outstanding, and fit the dependencies. -/
def Lawful (fits : D → R → Prop) (e : Effect D R) : Prop :=
  ∀ i state, e.Live i state → e.cleanup = some i ∧ ∃ deps, e.deps = some deps ∧ fits deps state

variable {fits : D → R → Prop} {e : Effect D R}

theorem not_live_empty {i : ℕ} {state : R} : ¬ ({} : Effect D R).Live i state := nofun

theorem lawful_empty : Lawful fits ({} : Effect D R) := fun _ _ hl => absurd hl not_live_empty

@[simp] theorem deps_modify (i : ℕ) (f : R → R) : (e.modify i f).deps = e.deps := rfl

@[simp] theorem deps_sync [DecidableEq D] (start : D → Option R) (deps : D) : (e.sync start deps).deps = some deps := by
  unfold sync
  split
  · assumption
  · split
    · rfl
    · rfl

theorem length_cancel (runs : List (Run R)) (i : Option ℕ) : (cancel runs i).length = runs.length := by
  cases i with
  | none => rfl
  | some i => exact List.length_modify _ _ _

/-- The cleanup of a lawful effect leaves no run live. -/
theorem cancel_dead (h : e.Lawful fits) (i : ℕ) (state : R) :
    (cancel e.runs e.cleanup)[i]? ≠ some { state := state } := by
  intro hi
  cases hc : e.cleanup with
  | none =>
    rw [hc] at hi
    cases hc.symm.trans (h i state hi).1
  | some k =>
    rw [hc, cancel, List.getElem?_modify] at hi
    obtain ⟨run, hrun, he⟩ := Option.map_eq_some_iff.mp hi
    by_cases hk : k = i
    · rw [if_pos hk] at he
      cases he
    · rw [if_neg hk] at he
      cases he
      exact hk (Option.some.inj (hc.symm.trans (h i state hrun).1))

/-- What is live after the dependencies are looked at: the same run, or a new
one if they have changed. -/
theorem live_sync [DecidableEq D] (h : e.Lawful fits) {start : D → Option R} {deps : D} {i : ℕ} {state : R}
    (hl : (e.sync start deps).Live i state) :
    e.deps = some deps ∧ e.Live i state ∨
      (e.sync start deps).cleanup = some i ∧ i = e.runs.length ∧ start deps = some state := by
  by_cases hd : e.deps = some deps
  · refine .inl ⟨hd, ?_⟩
    rwa [sync, if_pos hd] at hl
  · right
    unfold sync at hl ⊢
    rw [if_neg hd] at hl ⊢
    cases hstart : start deps with
    | none =>
      rw [hstart] at hl
      exact absurd hl (cancel_dead h i state)
    | some first =>
      rw [hstart] at hl
      have hlen := length_cancel e.runs e.cleanup
      have hl : (cancel e.runs e.cleanup ++ [{ state := first }])[i]? = some { state := state } := hl
      by_cases hlt : i < (cancel e.runs e.cleanup).length
      · rw [List.getElem?_append_left hlt] at hl
        exact absurd hl (cancel_dead h i state)
      · rw [List.getElem?_append_right (Nat.not_lt.mp hlt), List.getElem?_singleton] at hl
        split at hl
        · cases hl
          have hi : i = e.runs.length := by omega
          exact ⟨congrArg some hi.symm, hi, rfl⟩
        · cases hl

theorem lawful_sync [DecidableEq D] (h : e.Lawful fits) {start : D → Option R}
    (hstart : ∀ deps state, start deps = some state → fits deps state) (deps : D) :
    (e.sync start deps).Lawful fits := by
  intro i state hl
  rcases live_sync h hl with ⟨hd, hl⟩ | ⟨hc, -, hs⟩
  · rw [sync, if_pos hd]
    exact h i state hl
  · exact ⟨hc, deps, deps_sync start deps, hstart deps state hs⟩

/-- What is live after a run went on. -/
theorem live_modify {i j : ℕ} {f : R → R} {state : R} :
    (e.modify i f).Live j state ↔ ∃ state', e.Live j state' ∧ state = if i = j then f state' else state' := by
  unfold Live modify
  rw [List.getElem?_modify]
  constructor
  · intro h
    obtain ⟨⟨before, cancelled⟩, hrun, he⟩ := Option.map_eq_some_iff.mp h
    refine ⟨before, ?_⟩
    split at he
    · cases he
      exact ⟨hrun, (if_pos ‹_›).symm⟩
    · cases he
      exact ⟨hrun, (if_neg ‹_›).symm⟩
  · rintro ⟨before, hrun, rfl⟩
    rw [hrun]
    split
    · rfl
    · rfl

theorem lawful_modify (h : e.Lawful fits) (i : ℕ) {f : R → R} (hf : ∀ deps state, fits deps state → fits deps (f state)) :
    (e.modify i f).Lawful fits := by
  intro j state hl
  obtain ⟨before, hbefore, rfl⟩ := live_modify.mp hl
  obtain ⟨hc, deps, hd, hfits⟩ := h j before hbefore
  refine ⟨hc, deps, hd, ?_⟩
  split
  · exact hf deps before hfits
  · exact hfits

/-- A cancelled run that goes on changes nothing that is live. -/
theorem live_modify_cancelled {i j : ℕ} {f : R → R} {run : Run R} {state : R} (hrun : e.runs[i]? = some run)
    (hc : run.cancelled = true) : (e.modify i f).Live j state ↔ e.Live j state := by
  rw [live_modify]
  constructor
  · rintro ⟨before, hbefore, rfl⟩
    have hij : i ≠ j := by
      rintro rfl
      cases hrun.symm.trans hbefore
      cases hc
    rwa [if_neg hij]
  · intro hl
    have hij : i ≠ j := by
      rintro rfl
      cases hrun.symm.trans hl
      cases hc
    exact ⟨state, hl, (if_neg hij).symm⟩

theorem lawful_modify_cancelled (h : e.Lawful fits) {i : ℕ} (f : R → R) {run : Run R} (hrun : e.runs[i]? = some run)
    (hc : run.cancelled = true) : (e.modify i f).Lawful fits := fun j state hl =>
  h j state ((live_modify_cancelled hrun hc).mp hl)

theorem length_modify (i : ℕ) (f : R → R) : (e.modify i f).runs.length = e.runs.length := List.length_modify _ _ _

theorem length_le_sync [DecidableEq D] (start : D → Option R) (deps : D) :
    e.runs.length ≤ (e.sync start deps).runs.length := by
  unfold sync
  split
  · exact Nat.le_refl _
  · split
    · simp [length_cancel]
    · exact Nat.le_of_eq (length_cancel _ _).symm

/-- A run is live where the dependencies start one. -/
def Started (start : D → Option R) (e : Effect D R) : Prop :=
  ∀ deps first, e.deps = some deps → start deps = some first → ∃ i state, e.Live i state

theorem started_empty (start : D → Option R) : Started start ({} : Effect D R) := nofun

theorem started_sync [DecidableEq D] {start : D → Option R} (h : e.Started start) (deps : D) :
    (e.sync start deps).Started start := by
  by_cases hd : e.deps = some deps
  · rwa [sync, if_pos hd]
  · intro deps' first hd' hs
    cases (deps_sync start deps).symm.trans hd'
    refine ⟨e.runs.length, first, ?_⟩
    rw [sync, if_neg hd, hs]
    show (cancel e.runs e.cleanup ++ [_])[e.runs.length]? = _
    rw [← length_cancel e.runs e.cleanup]
    exact List.getElem?_concat_length

theorem started_modify {start : D → Option R} (h : e.Started start) (i : ℕ) (f : R → R) : (e.modify i f).Started start := by
  intro deps first hd hs
  obtain ⟨j, state, hl⟩ := h deps first hd hs
  exact ⟨j, _, live_modify.mpr ⟨state, hl, rfl⟩⟩

/-- Only one run is live. -/
theorem Lawful.unique (h : e.Lawful fits) {i j : ℕ} {a b : R} (ha : e.Live i a) (hb : e.Live j b) : i = j ∧ a = b := by
  have hij : i = j := Option.some.inj ((h i a ha).1.symm.trans (h j b hb).1)
  subst hij
  cases Option.some.inj (Eq.trans (Eq.symm ha) hb)
  exact ⟨rfl, rfl⟩

end Effect

end Component
