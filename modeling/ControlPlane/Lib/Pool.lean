import Mathlib.Logic.Function.Basic
import ControlPlane.Lib.Program

/-!
# Programs that run at the same time

A pool (`Pool`) is a world and a program for each thread; a schedule says
which thread takes the next step, and with which choice. A thread that dies
is one the schedule leaves out from some point on.

Three rules prove an invariant of every schedule. `Pool.run_meets`: what each
step keeps, a run keeps, as far as its steps meet a condition (`Pool.Meets`).
`Pool.run_calls`: threads that only call operations in `P` keep what these
operations keep, under a condition on the states they are called in
(`Pool.Along`). `Pool.run_guarded` is rely and guarantee: a thread's steps keep
the invariant and stay within what the others rely on (`Guarded`, by recursion
on the thread's program).
-/

namespace Effect

variable {S : Sig} {ι ε α β C W : Type}

/-- The program has returned or raised. -/
def Ended : Prog S ε α → Prop
  | .call _ _ => False
  | _ => True

instance (p : Prog S ε α) : Decidable (Ended p) :=
  match p with
  | .call _ _ => .isFalse id
  | .done _ => .isTrue trivial
  | .fail _ => .isTrue trivial

/-- The program and the world after the program's next call; one that has
ended makes none. -/
def Prog.next (h : Handler S ε C W) (c : C) (p : Prog S ε α) (w : W) : Prog S ε α × W :=
  match p with
  | .call o k =>
    match h o c w with
    | .error e => (.fail e, w)
    | .ok (a, w') => (k a, w')
  | p => (p, w)

section

variable {h : Handler S ε C W} {e : ε} {o : S.Op} {k : S.Ans o → Prog S ε α} {c : C} {w w' : W}

/-- A call that is refused. -/
theorem next_refused : ((Prog.call o k).lossy e).next h.lossy (.refused, c) w = (.fail e, w) := by
  simp only [Prog.lossy, Prog.next, Handler.lossy]

theorem next_answered {a : S.Ans o} (hc : h o c w = .ok (a, w')) :
    ((Prog.call o k).lossy e).next h.lossy (.answered, c) w = ((k a).lossy e, w') := by
  simp only [Prog.lossy, Prog.next, Handler.lossy, hc, Except.map]

/-- A call whose answer is lost. -/
theorem next_lost {a : S.Ans o} (hc : h o c w = .ok (a, w')) :
    ((Prog.call o k).lossy e).next h.lossy (.lost, c) w = (.fail e, w') := by
  simp only [Prog.lossy, Prog.next, Handler.lossy, hc, Except.map]

/-- A call that raises of itself leaves the world as it is. -/
theorem next_raised {e' : ε} (hc : h o c w = .error e') (fate : Fate) :
    ∃ e'', ((Prog.call o k).lossy e).next h.lossy (fate, c) w = (.fail e'', w) := by
  cases fate with
  | refused => exact ⟨e, next_refused⟩
  | answered => exact ⟨e', by simp only [Prog.lossy, Prog.next, Handler.lossy, hc, Except.map]⟩
  | lost => exact ⟨e', by simp only [Prog.lossy, Prog.next, Handler.lossy, hc, Except.map]⟩

/-- What a call that may raise comes to: it raises and has done nothing, or it
is carried out, and answered or not. -/
theorem next_lossy (h : Handler S ε C W) (e : ε) (o : S.Op) (k : S.Ans o → Prog S ε α) (c : Fate × C) (w : W) :
    (∃ e', (e' = e ∨ h o c.2 w = .error e') ∧ ((Prog.call o k).lossy e).next h.lossy c w = (.fail e', w)) ∨
      ∃ a w', h o c.2 w = .ok (a, w') ∧
        ((c.1 = .answered ∧ ((Prog.call o k).lossy e).next h.lossy c w = ((k a).lossy e, w')) ∨
          ((Prog.call o k).lossy e).next h.lossy c w = (.fail e, w')) := by
  obtain ⟨fate, c⟩ := c
  cases hc : h o c w with
  | error e' =>
    cases fate with
    | refused => exact .inl ⟨e, .inl rfl, next_refused⟩
    | answered => exact .inl ⟨e', .inr rfl, by simp only [Prog.lossy, Prog.next, Handler.lossy, hc, Except.map]⟩
    | lost => exact .inl ⟨e', .inr rfl, by simp only [Prog.lossy, Prog.next, Handler.lossy, hc, Except.map]⟩
  | ok r =>
    cases fate with
    | refused => exact .inl ⟨e, .inl rfl, next_refused⟩
    | answered => exact .inr ⟨r.1, r.2, rfl, .inl ⟨rfl, next_answered hc⟩⟩
    | lost => exact .inr ⟨r.1, r.2, rfl, .inr (next_lost hc)⟩

end

/-- A world and the programs running in it. -/
structure Pool (S : Sig) (ε α W ι : Type) where
  world : W
  thread : ι → Prog S ε α

namespace Pool

variable [DecidableEq ι]

/-- The next step of thread `i`. A thread that has ended takes none. -/
def step (h : ι → Handler S ε C W) (p : Pool S ε α W ι) (x : ι × C) : Pool S ε α W ι :=
  match p.thread x.1 with
  | .call o k =>
    match h x.1 o x.2 p.world with
    | .error e => ⟨p.world, Function.update p.thread x.1 (.fail e)⟩
    | .ok (a, w) => ⟨w, Function.update p.thread x.1 (k a)⟩
  | _ => p

/-- The pool after the steps of a schedule. -/
def run (h : ι → Handler S ε C W) (p : Pool S ε α W ι) (sched : List (ι × C)) : Pool S ε α W ι :=
  sched.foldl (step h) p

theorem run_cons (h : ι → Handler S ε C W) (p : Pool S ε α W ι) (x : ι × C) (xs : List (ι × C)) :
    p.run h (x :: xs) = (p.step h x).run h xs := rfl

/-- Every operation of the schedule is called in a state that meets `ok`. -/
def Along (h : ι → Handler S ε C W) (ok : S.Op → W → Prop) : Pool S ε α W ι → List (ι × C) → Prop
  | _, [] => True
  | p, x :: xs => (∀ o k, p.thread x.1 = .call o k → ok o p.world) ∧ Along h ok (p.step h x) xs

/-- Every operation of the schedule is called with a choice that meets `ok`. -/
def Choosing (h : ι → Handler S ε C W) (ok : S.Op → C → Prop) : Pool S ε α W ι → List (ι × C) → Prop
  | _, [] => True
  | p, x :: xs => (∀ o k, p.thread x.1 = .call o k → ok o x.2) ∧ Choosing h ok (p.step h x) xs

/-- Every step of the schedule is taken in a state that meets `ok`. -/
def Meets (h : ι → Handler S ε C W) (ok : Pool S ε α W ι → ι × C → Prop) : Pool S ε α W ι → List (ι × C) → Prop
  | _, [] => True
  | p, x :: xs => ok p x ∧ Meets h ok (p.step h x) xs

instance Meets.decide (h : ι → Handler S ε C W) (ok : Pool S ε α W ι → ι × C → Prop) [∀ p x, Decidable (ok p x)] :
    (p : Pool S ε α W ι) → (sched : List (ι × C)) → Decidable (Meets h ok p sched)
  | _, [] => .isTrue trivial
  | p, x :: xs =>
    have := Meets.decide h ok (p.step h x) xs
    inferInstanceAs (Decidable (ok p x ∧ Meets h ok (p.step h x) xs))

/-- What each step taken where `ok` holds keeps, a schedule of such steps keeps. -/
theorem run_meets {h : ι → Handler S ε C W} {ok : Pool S ε α W ι → ι × C → Prop} {I : Pool S ε α W ι → Prop}
    (hstep : ∀ p x, I p → ok p x → I (p.step h x)) {p : Pool S ε α W ι} (hp : I p) {sched : List (ι × C)}
    (hs : Meets h ok p sched) : I (p.run h sched) := by
  induction sched generalizing p with
  | nil => exact hp
  | cons x xs ih => exact ih (hstep p x hp hs.1) hs.2

variable {h : ι → Handler S ε C W} {I : W → Prop}

theorem along_true (p : Pool S ε α W ι) (sched : List (ι × C)) : Along h (fun _ _ => True) p sched := by
  induction sched generalizing p with
  | nil => trivial
  | cons x xs ih => exact ⟨fun _ _ _ => trivial, ih _⟩

/-- What a step does: nothing, or the thread's next operation raises, or it
is answered. -/
theorem step_cases (h : ι → Handler S ε C W) (p : Pool S ε α W ι) (x : ι × C) :
    p.step h x = p ∨ ∃ o k, p.thread x.1 = .call o k ∧
      ((∃ e, p.step h x = ⟨p.world, Function.update p.thread x.1 (.fail e)⟩) ∨
        ∃ a w, h x.1 o x.2 p.world = .ok (a, w) ∧
          p.step h x = ⟨w, Function.update p.thread x.1 (k a)⟩) := by
  cases ht : p.thread x.1 with
  | done a => exact .inl (by simp only [step, ht])
  | fail e => exact .inl (by simp only [step, ht])
  | call o k =>
    refine .inr ⟨o, k, rfl, ?_⟩
    cases hc : h x.1 o x.2 p.world with
    | error e => exact .inl ⟨e, by simp only [step, ht, hc]⟩
    | ok r => exact .inr ⟨r.1, r.2, rfl, by simp only [step, ht, hc]⟩

theorem choosing_of_forall {ok : S.Op → C → Prop} {p : Pool S ε α W ι} {sched : List (ι × C)}
    (hs : ∀ x ∈ sched, ∀ o, ok o x.2) : Choosing h ok p sched := by
  induction sched generalizing p with
  | nil => trivial
  | cons x xs ih =>
    exact ⟨fun o _ _ => hs x List.mem_cons_self o, ih fun y hy => hs y (List.mem_cons_of_mem x hy)⟩

/-- A step is its thread's next call. -/
theorem step_eq (h : ι → Handler S ε C W) (p : Pool S ε α W ι) (x : ι × C) :
    p.step h x = ⟨((p.thread x.1).next (h x.1) x.2 p.world).2,
      Function.update p.thread x.1 ((p.thread x.1).next (h x.1) x.2 p.world).1⟩ := by
  have hself := Function.update_eq_self x.1 p.thread
  cases ht : p.thread x.1 with
  | done a => rw [ht] at hself; simp only [step, Prog.next, ht, hself]
  | fail e => rw [ht] at hself; simp only [step, Prog.next, ht, hself]
  | call o k =>
    simp only [step, Prog.next, ht]
    split <;> rfl

/-- A step whose call is answered. -/
theorem step_answered {p : Pool S ε α W ι} {x : ι × C} {o : S.Op} {k : S.Ans o → Prog S ε α} {a : S.Ans o} {w : W}
    (ht : p.thread x.1 = .call o k) (hc : h x.1 o x.2 p.world = .ok (a, w)) :
    p.step h x = ⟨w, Function.update p.thread x.1 (k a)⟩ := by
  simp only [step, ht, hc]

/-- A thread that has ended takes no step. -/
theorem step_ended {p : Pool S ε α W ι} {x : ι × C} (he : Ended (p.thread x.1)) : p.step h x = p := by
  obtain e | ⟨o, k, hk, -⟩ := step_cases h p x
  · exact e
  · rw [hk] at he
    exact he.elim

/-- A thread that has ended stays as it is, however often it is scheduled. -/
theorem run_ended {p : Pool S ε α W ι} {i : ι} (he : Ended (p.thread i)) (n : ℕ) (c : C) :
    p.run h (List.replicate n (i, c)) = p := by
  induction n with
  | zero => rfl
  | succ n ih => rw [List.replicate_succ, run_cons, step_ended he, ih]

theorem run_snoc (h : ι → Handler S ε C W) (p : Pool S ε α W ι) (xs : List (ι × C)) (x : ι × C) :
    p.run h (xs ++ [x]) = (p.run h xs).step h x := by
  simp only [run, List.foldl_append, List.foldl_cons, List.foldl_nil]

/-- A step of one thread leaves the others where they are. -/
theorem step_thread_ne (h : ι → Handler S ε C W) (p : Pool S ε α W ι) {x : ι × C} {i : ι} (hi : i ≠ x.1) :
    (p.step h x).thread i = p.thread i := by
  obtain e | ⟨o, k, -, ⟨e, hs⟩ | ⟨a, w, -, hs⟩⟩ := step_cases h p x
  · rw [e]
  · rw [hs]
    exact Function.update_of_ne hi _ _
  · rw [hs]
    exact Function.update_of_ne hi _ _

theorem step_calls {P : S.Op → Prop} {ok : S.Op → W → Prop}
    (hI : ∀ i o c w a w', P o → ok o w → I w → h i o c w = .ok (a, w') → I w')
    {p : Pool S ε α W ι} (hp : ∀ i, Calls P (p.thread i)) (hw : I p.world) {x : ι × C}
    (hx : ∀ o k, p.thread x.1 = .call o k → ok o p.world) :
    I (p.step h x).world ∧ ∀ i, Calls P ((p.step h x).thread i) := by
  obtain e | ⟨o, k, hk, ⟨e, hs⟩ | ⟨a, w, ha, hs⟩⟩ := step_cases h p x
  · rw [e]; exact ⟨hw, hp⟩
  · rw [hs]
    exact ⟨hw, (Function.forall_update_iff _ fun _ => Calls P).mpr ⟨trivial, fun i _ => hp i⟩⟩
  · have hc := hp x.1
    rw [hk] at hc
    rw [hs]
    exact ⟨hI _ _ _ _ _ _ hc.1 (hx o k hk) hw ha,
      (Function.forall_update_iff _ fun _ => Calls P).mpr ⟨hc.2 a, fun i _ => hp i⟩⟩

/-- What the operations in `P` keep where `ok` holds, every schedule of
threads that call no others keeps, as long as it stays along `ok`. -/
theorem run_calls {P : S.Op → Prop} {ok : S.Op → W → Prop}
    (hI : ∀ i o c w a w', P o → ok o w → I w → h i o c w = .ok (a, w') → I w')
    {p : Pool S ε α W ι} (hp : ∀ i, Calls P (p.thread i)) (hw : I p.world) {sched : List (ι × C)}
    (hs : Along h ok p sched) : I (p.run h sched).world := by
  induction sched generalizing p with
  | nil => exact hw
  | cons x xs ih =>
    obtain ⟨hw', hp'⟩ := step_calls hI hp hw hs.1
    exact ih hp' hw' hs.2

end Pool

/-! ## Rely and guarantee -/

/-- From `w`, with others changing the world as `R` allows, every step of the
program keeps `I` and changes the world as `G` allows; and `Q` holds of what
it returns. -/
def Guarded (h : Handler S ε C W) (I : W → Prop) (R G : W → W → Prop) (Q : α → W → Prop) :
    Prog S ε α → W → Prop
  | .done a, w => Q a w
  | .fail _, _ => True
  | .call o k, w => ∀ w₁, R w w₁ → I w₁ → ∀ c a w₂, h o c w₁ = .ok (a, w₂) →
      I w₂ ∧ G w₁ w₂ ∧ Guarded h I R G Q (k a) w₂

/-- What others do before the next step does not matter. -/
theorem Guarded.rely {h : Handler S ε C W} {I : W → Prop} {R G : W → W → Prop} {Q : α → W → Prop}
    (hR : ∀ a b c, R a b → R b c → R a c) (hQ : ∀ a w w', Q a w → R w w' → Q a w')
    {p : Prog S ε α} {w w' : W} (hp : Guarded h I R G Q p w) (hw : R w w') : Guarded h I R G Q p w' := by
  cases p with
  | done a => exact hQ _ _ _ hp hw
  | fail e => trivial
  | call o k => exact fun w₁ h₁ => hp w₁ (hR _ _ _ hw h₁)

section

variable {T : Sig} {h : Handler S ε C W} {I : W → Prop} {R G : W → W → Prop} {Q : α → W → Prop}

theorem Guarded.bind {Q' : β → W → Prop} {p : Prog S ε α} {f : α → Prog S ε β} {w : W}
    (hp : Guarded h I R G (fun a w => Guarded h I R G Q' (f a) w) p w) : Guarded h I R G Q' (p >>= f) w := by
  induction p generalizing w with
  | done a => exact hp
  | fail e => trivial
  | call o k ih =>
    intro w₁ hR hI c a w₂ hc
    obtain ⟨hI', g, q⟩ := hp w₁ hR hI c a w₂ hc
    exact ⟨hI', g, ih a q⟩

theorem Guarded.mono {Q' : α → W → Prop} {p : Prog S ε α} {w : W} (hp : Guarded h I R G Q p w)
    (hQ : ∀ a w, Q a w → Q' a w) : Guarded h I R G Q' p w := by
  induction p generalizing w with
  | done a => exact hQ a w hp
  | fail e => trivial
  | call o k ih =>
    intro w₁ hR hI c a w₂ hc
    obtain ⟨hI', g, q⟩ := hp w₁ hR hI c a w₂ hc
    exact ⟨hI', g, ih a q⟩

theorem Guarded.inl {g : Handler T ε C W} {p : Prog S ε α} {w : W} (hp : Guarded h I R G Q p w) :
    Guarded (h.sum g) I R G Q p.inl w := by
  induction p generalizing w with
  | done a => exact hp
  | fail e => trivial
  | call o k ih =>
    intro w₁ hR hI c a w₂ hc
    obtain ⟨hI', g, q⟩ := hp w₁ hR hI c a w₂ hc
    exact ⟨hI', g, ih a q⟩

theorem Guarded.inr {g : Handler T ε C W} {p : Prog T ε α} {w : W} (hp : Guarded g I R G Q p w) :
    Guarded (h.sum g) I R G Q p.inr w := by
  induction p generalizing w with
  | done a => exact hp
  | fail e => trivial
  | call o k ih =>
    intro w₁ hR hI c a w₂ hc
    obtain ⟨hI', g, q⟩ := hp w₁ hR hI c a w₂ hc
    exact ⟨hI', g, ih a q⟩

theorem Guarded.choosing {D : Type} {f : D → C} {p : Prog S ε α} {w : W} (hp : Guarded h I R G Q p w) :
    Guarded (h.choosing f) I R G Q p w := by
  induction p generalizing w with
  | done a => exact hp
  | fail e => trivial
  | call o k ih =>
    intro w₁ hR hI d a w₂ hc
    obtain ⟨hI', g, q⟩ := hp w₁ hR hI (f d) a w₂ hc
    exact ⟨hI', g, ih a q⟩

/-- A call that raises leaves the world as it was, or as an answered one does. -/
theorem Guarded.lossy (hG : ∀ w, G w w) {e : ε} {p : Prog S ε α} {w : W} (hp : Guarded h I R G Q p w) :
    Guarded h.lossy I R G Q (p.lossy e) w := by
  induction p generalizing w with
  | done a => exact hp
  | fail e => trivial
  | call o k ih =>
    rw [Prog.lossy]
    intro w₁ hR hI c a w₂ hc
    obtain ⟨fate, c⟩ := c
    cases hr : h o c w₁ with
    | error e =>
      cases fate with
      | refused => cases hc; exact ⟨hI, hG _, trivial⟩
      | answered => simp only [Handler.lossy, hr] at hc; cases hc
      | lost => simp only [Handler.lossy, hr] at hc; cases hc
    | ok r =>
      obtain ⟨hI', g, q⟩ := hp w₁ hR hI c r.1 r.2 hr
      cases fate with
      | refused => cases hc; exact ⟨hI, hG _, trivial⟩
      | answered =>
        simp only [Handler.lossy, hr] at hc
        cases hc
        exact ⟨hI', g, ih _ q⟩
      | lost =>
        simp only [Handler.lossy, hr] at hc
        cases hc
        exact ⟨hI', g, trivial⟩

/-- A program that only calls operations in `P`, which keep `A` and whose
changes `G` allows. -/
theorem Guarded.of_calls {P : S.Op → Prop} {A : W → Prop} (hA : ∀ w w', A w → R w w' → A w')
    (hP : ∀ o c w a w', P o → I w → A w → h o c w = .ok (a, w') → I w' ∧ A w' ∧ G w w') {p : Prog S ε α}
    (hp : Calls P p) {w : W} (hw : A w) : Guarded h I R G (fun _ w => A w) p w := by
  induction p generalizing w with
  | done a => exact hw
  | fail e => trivial
  | call o k ih =>
    intro w₁ hR hI c a w₂ hc
    obtain ⟨hI', hA', g⟩ := hP o c w₁ a w₂ hp.1 hI (hA _ _ hw hR) hc
    exact ⟨hI', g, ih a (hp.2 a) hA'⟩

end

section

variable [DecidableEq ι] {h : ι → Handler S ε C W} {I : W → Prop} {R G : ι → W → W → Prop}

/-- The invariant, and every thread within its guarantee. -/
structure Pool.Kept (h : ι → Handler S ε C W) (I : W → Prop) (R G : ι → W → W → Prop)
    (p : Pool S ε α W ι) : Prop where
  world : I p.world
  thread : ∀ i, Guarded (h i) I (R i) (G i) (fun _ _ => True) (p.thread i) p.world

/-- A step of threads whose guarantees are within what the others rely on: it
keeps them so, and is within its thread's guarantee. -/
theorem Pool.step_guarded (hrefl : ∀ i w, R i w w) (htrans : ∀ i a b c, R i a b → R i b c → R i a c)
    (hG : ∀ i j w w', i ≠ j → G i w w' → R j w w') {p : Pool S ε α W ι} (hp : p.Kept h I R G) (x : ι × C) :
    (p.step h x).Kept h I R G ∧ ((p.step h x).world = p.world ∨ G x.1 p.world (p.step h x).world) := by
  obtain e | ⟨o, k, hk, ⟨e, hs⟩ | ⟨a, w, ha, hs⟩⟩ := step_cases h p x
  · rw [e]
    exact ⟨hp, .inl rfl⟩
  · rw [hs]
    refine ⟨⟨hp.world, ?_⟩, .inl rfl⟩
    exact (Function.forall_update_iff _ fun i q => Guarded (h i) I (R i) (G i) (fun _ _ => True) q _).mpr
      ⟨trivial, fun i _ => hp.thread i⟩
  · have hx := hp.thread x.1
    rw [hk] at hx
    obtain ⟨hw, g, q⟩ := hx _ (hrefl _ _) hp.world _ _ _ ha
    rw [hs]
    refine ⟨⟨hw, ?_⟩, .inr g⟩
    refine (Function.forall_update_iff _ fun i q => Guarded (h i) I (R i) (G i) (fun _ _ => True) q w).mpr
      ⟨q, fun i hi => ?_⟩
    exact (hp.thread i).rely (htrans i) (fun _ _ _ _ _ => trivial) (hG x.1 i p.world w (Ne.symm hi) g)

/-- Every schedule keeps what each step keeps. -/
theorem Pool.run_guarded (hrefl : ∀ i w, R i w w) (htrans : ∀ i a b c, R i a b → R i b c → R i a c)
    (hG : ∀ i j w w', i ≠ j → G i w w' → R j w w') {p : Pool S ε α W ι} (hp : p.Kept h I R G)
    (sched : List (ι × C)) : (p.run h sched).Kept h I R G := by
  induction sched generalizing p with
  | nil => exact hp
  | cons x xs ih => exact ih (p := p.step h x) (step_guarded hrefl htrans hG hp x).1

end

/-- Alone, a program within its guarantee changes the world as it allows. -/
theorem Guarded.exec {h : Handler S ε Unit W} {I : W → Prop} {R G : W → W → Prop} {Q : α → W → Prop}
    (hR : ∀ w, R w w) (hG : ∀ w, G w w) (htrans : ∀ a b c, G a b → G b c → G a c) {p : Prog S ε α} {w : W}
    (hp : Guarded h I R G Q p w) (hw : I w) : I (exec h p w).2 ∧ G w (exec h p w).2 := by
  induction p generalizing w with
  | done a => exact ⟨hw, hG w⟩
  | fail e => exact ⟨hw, hG w⟩
  | call o k ih =>
    simp only [Effect.exec]
    split
    · exact ⟨hw, hG w⟩
    · rename_i a w' hc
      obtain ⟨hw', g, q⟩ := hp w (hR w) hw () a w' hc
      obtain ⟨hI, hg⟩ := ih a q hw'
      exact ⟨hI, htrans _ _ _ g hg⟩

end Effect
