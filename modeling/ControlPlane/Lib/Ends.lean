import ControlPlane.Lib.Pool

/-!
# How programs end amid others

`Within` is rely and guarantee as `Guarded` is, with a postcondition of how the
program ends, exceptions included: what `finally` does, and what an exception
leaves behind, is stated with it.

* `Within.bind`, `Within.of_calls`, `Within.lossy`: the rules of programs.
* `Pool.run_within`: a pool of such threads keeps them so; `Pool.Ending.ended` is what
  is known of a thread that has ended.
-/

namespace Effect

variable {S T : Sig} {ι ε α β C W : Type}

/-- From `w`, with others changing the world as `R` allows, every step of the
program keeps `I` and changes the world as `G` allows; and `Q` holds of how it
ends. -/
def Within (h : Handler S ε C W) (I : W → Prop) (R G : W → W → Prop) (Q : Except ε α → W → Prop) :
    Prog S ε α → W → Prop
  | .done a, w => Q (.ok a) w
  | .fail e, w => Q (.error e) w
  | .call o k, w => ∀ w₁, R w w₁ → I w₁ → ∀ c, (∀ e, h o c w₁ = .error e → Q (.error e) w₁) ∧
      ∀ a w₂, h o c w₁ = .ok (a, w₂) → I w₂ ∧ G w₁ w₂ ∧ Within h I R G Q (k a) w₂

section

variable {h : Handler S ε C W} {I : W → Prop} {R G : W → W → Prop} {Q : Except ε α → W → Prop} {p : Prog S ε α} {w : W}

theorem Within.rely (hR : ∀ a b c, R a b → R b c → R a c) (hQ : ∀ r w w', Q r w → R w w' → Q r w')
    (hp : Within h I R G Q p w) {w' : W} (hw : R w w') : Within h I R G Q p w' := by
  cases p with
  | done a => exact hQ _ _ _ hp hw
  | fail e => exact hQ _ _ _ hp hw
  | call o k => exact fun w₁ h₁ => hp w₁ (hR _ _ _ hw h₁)

theorem Within.mono {Q' : Except ε α → W → Prop} (hp : Within h I R G Q p w) (hQ : ∀ r w, Q r w → Q' r w) :
    Within h I R G Q' p w := by
  induction p generalizing w with
  | done a => exact hQ _ w hp
  | fail e => exact hQ _ w hp
  | call o k ih =>
    intro w₁ hR hI c
    obtain ⟨herror, hok⟩ := hp w₁ hR hI c
    refine ⟨fun e he => hQ _ w₁ (herror e he), fun a w₂ hc => ?_⟩
    obtain ⟨hI', g, q⟩ := hok a w₂ hc
    exact ⟨hI', g, ih a q⟩

/-- Where the first part returns, the second goes on; its exceptions are the
whole's. -/
theorem Within.bind {Q' : Except ε β → W → Prop} {f : α → Prog S ε β} (hp : Within h I R G Q p w)
    (hok : ∀ a w, Q (.ok a) w → Within h I R G Q' (f a) w) (herror : ∀ e w, Q (.error e) w → Q' (.error e) w) :
    Within h I R G Q' (p >>= f) w := by
  induction p generalizing w with
  | done a => exact hok a w hp
  | fail e => exact herror e w hp
  | call o k ih =>
    intro w₁ hR hI c
    obtain ⟨he, hk⟩ := hp w₁ hR hI c
    refine ⟨fun e hc => herror e w₁ (he e hc), fun a w₂ hc => ?_⟩
    obtain ⟨hI', g, q⟩ := hk a w₂ hc
    exact ⟨hI', g, ih a q⟩

/-- A program that only calls operations in `P`, which keep `A` and whose
changes `G` allows. -/
theorem Within.of_calls {P : S.Op → Prop} {A : W → Prop} (hA : ∀ w w', A w → R w w' → A w')
    (hP : ∀ o c w a w', P o → I w → A w → h o c w = .ok (a, w') → I w' ∧ G w w' ∧ A w') (hp : Calls P p) (hw : A w) :
    Within h I R G (fun _ w => A w) p w := by
  induction p generalizing w with
  | done a => exact hw
  | fail e => exact hw
  | call o k ih =>
    intro w₁ hR hI c
    have h₁ : A w₁ := hA _ _ hw hR
    refine ⟨fun _ _ => h₁, fun a w₂ hc => ?_⟩
    obtain ⟨hI', g, h₂⟩ := hP o c w₁ a w₂ hp.1 hI h₁ hc
    exact ⟨hI', g, ih a (hp.2 a) h₂⟩

/-- Calls whose answers may fail to come, if nothing is asked of a program
that ends so. -/
theorem Within.lossy (hG : ∀ w, G w w) {e : ε} (he : ∀ w, Q (.error e) w) (hp : Within h I R G Q p w) :
    Within h.lossy I R G Q (p.lossy e) w := by
  induction p generalizing w with
  | done a => exact hp
  | fail e' => exact hp
  | call o k ih =>
    rw [Prog.lossy]
    intro w₁ hR hI c
    obtain ⟨fate, c⟩ := c
    obtain ⟨herror, hok⟩ := hp w₁ hR hI c
    cases fate with
    | refused =>
      refine ⟨fun e' hc => ?_, fun a w₂ hc => ?_⟩
      · cases hc
      · cases hc
        exact ⟨hI, hG _, he _⟩
    | answered =>
      cases hr : h o c w₁ with
      | error e' =>
        simp only [Handler.lossy, hr, Except.map]
        refine ⟨fun e'' hc => ?_, fun a w₂ hc => ?_⟩
        · cases hc
          exact herror e' hr
        · cases hc
      | ok r =>
        obtain ⟨hI', g, q⟩ := hok r.1 r.2 hr
        simp only [Handler.lossy, hr, Except.map]
        refine ⟨fun e' hc => ?_, fun a w₂ hc => ?_⟩
        · cases hc
        · cases hc
          exact ⟨hI', g, ih _ q⟩
    | lost =>
      cases hr : h o c w₁ with
      | error e' =>
        simp only [Handler.lossy, hr, Except.map]
        refine ⟨fun e'' hc => ?_, fun a w₂ hc => ?_⟩
        · cases hc
          exact herror e' hr
        · cases hc
      | ok r =>
        obtain ⟨hI', g, -⟩ := hok r.1 r.2 hr
        simp only [Handler.lossy, hr, Except.map]
        refine ⟨fun e' hc => ?_, fun a w₂ hc => ?_⟩
        · cases hc
        · cases hc
          exact ⟨hI', g, he _⟩

end

namespace Pool

variable [DecidableEq ι] {h : ι → Handler S ε C W} {I : W → Prop} {R G : ι → W → W → Prop}
variable {Q : ι → Except ε α → W → Prop} {p : Pool S ε α W ι}

/-- The invariant, and every thread within its guarantee. -/
structure Ending (h : ι → Handler S ε C W) (I : W → Prop) (R G : ι → W → W → Prop) (Q : ι → Except ε α → W → Prop)
    (p : Pool S ε α W ι) : Prop where
  world : I p.world
  thread : ∀ i, Within (h i) I (R i) (G i) (Q i) (p.thread i) p.world

/-- A step of threads whose guarantees are within what the others rely on. -/
theorem step_within (hrefl : ∀ i w, R i w w) (htrans : ∀ i a b c, R i a b → R i b c → R i a c)
    (hG : ∀ i j w w', i ≠ j → G i w w' → R j w w') (hQ : ∀ i r w w', Q i r w → R i w w' → Q i r w')
    (hp : p.Ending h I R G Q) (x : ι × C) : (p.step h x).Ending h I R G Q := by
  have hended (he : Ended (p.thread x.1)) : (p.step h x).Ending h I R G Q := by
    rw [step_ended he]
    exact hp
  have hx := hp.thread x.1
  cases ht : p.thread x.1 with
  | done a => exact hended (by rw [ht]; trivial)
  | fail e => exact hended (by rw [ht]; trivial)
  | call o k =>
    rw [ht] at hx
    obtain ⟨herror, hok⟩ := hx _ (hrefl _ _) hp.world x.2
    cases hc : h x.1 o x.2 p.world with
    | error e =>
      simp only [step, ht, hc]
      exact ⟨hp.world, (Function.forall_update_iff _ fun i q => Within (h i) I (R i) (G i) (Q i) q _).mpr
        ⟨herror e hc, fun i _ => hp.thread i⟩⟩
    | ok r =>
      obtain ⟨hw, g, q⟩ := hok r.1 r.2 hc
      rw [step_answered ht hc]
      refine ⟨hw, (Function.forall_update_iff _ fun i q => Within (h i) I (R i) (G i) (Q i) q r.2).mpr ⟨q, fun i hi => ?_⟩⟩
      exact (hp.thread i).rely (htrans i) (hQ i) (hG x.1 i p.world r.2 (Ne.symm hi) g)

/-- Every schedule keeps the threads ending as they should. -/
theorem run_within (hrefl : ∀ i w, R i w w) (htrans : ∀ i a b c, R i a b → R i b c → R i a c)
    (hG : ∀ i j w w', i ≠ j → G i w w' → R j w w') (hQ : ∀ i r w w', Q i r w → R i w w' → Q i r w')
    (hp : p.Ending h I R G Q) (sched : List (ι × C)) : (p.run h sched).Ending h I R G Q := by
  induction sched generalizing p with
  | nil => exact hp
  | cons x xs ih => exact ih (p := p.step h x) (step_within hrefl htrans hG hQ hp x)

/-- How the program has ended, if it has. -/
def result : Prog S ε α → Option (Except ε α)
  | .done a => some (.ok a)
  | .fail e => some (.error e)
  | .call _ _ => none

omit [DecidableEq ι] in
/-- What is known of a thread that has ended. -/
theorem Ending.ended (hp : p.Ending h I R G Q) {i : ι} {r : Except ε α} (hr : result (p.thread i) = some r) :
    Q i r p.world := by
  have hi := hp.thread i
  cases ht : p.thread i with
  | done a =>
    rw [ht] at hr hi
    cases hr
    exact hi
  | fail e =>
    rw [ht] at hr hi
    cases hr
    exact hi
  | call o k =>
    rw [ht] at hr
    cases hr

end Pool

end Effect
