import Mathlib.Data.List.Induction
import Mathlib.Tactic.Common

/-!
# Machines and their histories

A machine takes a step for an action, or none where the action is not enabled
(`step`). Its run over a history of actions (`run`) is the state it ends in,
if each action was enabled. `run_keeps` is the rule for what holds of a state
and the history that led to it, `run_keeps_along` for runs whose steps meet a
condition; `run_split` finds the states around an action of the history.
-/

namespace Machine

variable {S A : Type} {step : S → A → Option S}

/-- The state after a history, if each of its actions was enabled. -/
def run (step : S → A → Option S) (s : S) (history : List A) : Option S := history.foldlM step s

theorem run_append (s : S) (h h' : List A) : run step s (h ++ h') = run step s h >>= fun s' => run step s' h' :=
  List.foldlM_append

theorem run_cons (s : S) (a : A) (h : List A) : run step s (a :: h) = step s a >>= fun s' => run step s' h :=
  List.foldlM_cons

/-- The last step of a run. -/
theorem run_snoc {s s' : S} {h : List A} {a : A} :
    run step s (h ++ [a]) = some s' ↔ ∃ s₁, run step s h = some s₁ ∧ step s₁ a = some s' := by
  rw [run_append, Option.bind_eq_bind, Option.bind_eq_some_iff]
  refine exists_congr fun s₁ => and_congr_right fun _ => ?_
  rw [run_cons, Option.bind_eq_bind, Option.bind_eq_some_iff]
  exact ⟨fun ⟨s₂, hs, hr⟩ => by cases hr; exact hs, fun hs => ⟨s', hs, rfl⟩⟩

/-- The states before and after an action of the history. -/
theorem run_split {s s' : S} {h rest : List A} {a : A} (hr : run step s (h ++ a :: rest) = some s') :
    ∃ s₁ s₂, run step s h = some s₁ ∧ step s₁ a = some s₂ ∧ run step s₂ rest = some s' := by
  rw [run_append, Option.bind_eq_bind, Option.bind_eq_some_iff] at hr
  obtain ⟨s₁, h₁, hr⟩ := hr
  rw [run_cons, Option.bind_eq_bind, Option.bind_eq_some_iff] at hr
  obtain ⟨s₂, h₂, hr⟩ := hr
  exact ⟨s₁, s₂, h₁, h₂, hr⟩

/-- Every action of the history is taken where `ok` holds of the history before
it, the state and the action. -/
def Along (step : S → A → Option S) (ok : List A → S → A → Prop) (s₀ : S) (history : List A) : Prop :=
  ∀ h a rest s, history = h ++ a :: rest → run step s₀ h = some s → ok h s a

theorem along_nil (ok : List A → S → A → Prop) (s₀ : S) : Along step ok s₀ [] := fun h a rest _ e =>
  absurd e.symm (List.append_ne_nil_of_right_ne_nil h (List.cons_ne_nil a rest))

/-- A history that meets `ok` at its first action, and from there on. -/
theorem along_cons {ok : List A → S → A → Prop} {s₀ : S} {a : A} {history : List A} (h0 : ok [] s₀ a)
    (h1 : ∀ s₁, step s₀ a = some s₁ → Along step (fun h => ok (a :: h)) s₁ history) :
    Along step ok s₀ (a :: history) := by
  intro h b rest s e hr
  cases h with
  | nil =>
    cases hr
    cases e
    exact h0
  | cons c h =>
    cases e
    rw [run_cons, Option.bind_eq_bind, Option.bind_eq_some_iff] at hr
    obtain ⟨s₁, h₁, hr⟩ := hr
    exact h1 s₁ h₁ h b rest s rfl hr

/-- A history that meets `ok` up to its last action, and at that. -/
theorem along_snoc {ok : List A → S → A → Prop} {s₀ s : S} {a : A} {history : List A} (hr : run step s₀ history = some s) :
    Along step ok s₀ (history ++ [a]) ↔ Along step ok s₀ history ∧ ok history s a := by
  constructor
  · refine fun h => ⟨fun g b rest t e => h g b (rest ++ [a]) t ?_, h history a [] s rfl hr⟩
    rw [e, List.append_assoc, List.cons_append]
  · rintro ⟨h, hlast⟩ g b rest t e hg
    obtain rfl | ⟨rest, c, rfl⟩ := rest.eq_nil_or_concat
    · obtain ⟨rfl, hb⟩ := List.append_inj' e rfl
      cases hb
      cases hr.symm.trans hg
      exact hlast
    · have e : history ++ [a] = (g ++ b :: rest) ++ [c] := by rw [e, List.append_assoc, List.cons_append, List.concat_eq_append]
      exact h g b rest t (List.append_inj' e rfl).1 hg

/-- What holds at the start, and each step taken where `ok` holds keeps, holds
of every state of a run along `ok` and the history that led to it. -/
theorem run_keeps_along {ok : List A → S → A → Prop} {I : List A → S → Prop} {s₀ : S} (h0 : I [] s₀)
    (hstep : ∀ h s a s', I h s → ok h s a → step s a = some s' → I (h ++ [a]) s') {h : List A} {s : S}
    (hok : Along step ok s₀ h) (hr : run step s₀ h = some s) : I h s := by
  induction h using List.reverseRecOn generalizing s with
  | nil => cases hr; exact h0
  | append_singleton h a ih =>
    obtain ⟨s₁, h₁, hs⟩ := run_snoc.mp hr
    obtain ⟨hok₁, hlast⟩ := (along_snoc h₁).mp hok
    exact hstep h s₁ a s (ih hok₁ h₁) hlast hs

/-- What holds at the start, and each step keeps, holds of every state and the
history that led to it. -/
theorem run_keeps {I : List A → S → Prop} {s₀ : S} (h0 : I [] s₀)
    (hstep : ∀ h s a s', I h s → step s a = some s' → I (h ++ [a]) s') {h : List A} {s : S}
    (hr : run step s₀ h = some s) : I h s :=
  run_keeps_along h0 (fun h s a s' hI _ => hstep h s a s' hI)
    (show Along step (fun _ _ _ => True) s₀ h from fun _ _ _ _ _ _ => trivial) hr

end Machine
