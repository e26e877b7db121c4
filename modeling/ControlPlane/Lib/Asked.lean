import ControlPlane.Lib.Program

/-!
# Services that answer anything

A program run against services of which nothing is known but what they were
asked and what they answered (`recorded`): the answers are the choices of the
run, and the log of the calls is the world. `Safe.lossy` lets any call fail,
carried out or not.

* `Safe.finds`: a part of the program that only reads the rest of the world.
* `Safe.asks`: a call of a service.
-/

namespace Effect

open Prog

variable {S T : Sig} {ε α β γ C V W : Type}

/-- What is answered to each call. -/
abbrev Answers (S : Sig) := (o : S.Op) → S.Ans o

/-- A call, with its answer. -/
abbrev Asked (S : Sig) := Sigma S.Ans

/-- Calls that are answered as chosen, and logged. -/
def recorded : Handler S ε (Answers S) (List (Asked S)) := fun o c log => .ok (c o, log ++ [⟨o, c o⟩])

section

variable {h : Handler S ε C W} {I : W → Prop}

/-- What holds wherever a program stops, holds where it is. -/
theorem Safe.here {Q : α → W → Prop} (hQ : ∀ a w, Q a w → I w) {p : Prog S ε α} {w : W} (hs : Safe h I Q p w) : I w := by
  cases p with
  | done a => exact hQ a w hs
  | fail e => exact hs
  | call o k => exact hs.1

/-- What a program keeps wherever it stops, it keeps where its calls fail. -/
theorem Safe.lossy {Q : α → W → Prop} (hQ : ∀ a w, Q a w → I w) (e : ε) {p : Prog S ε α} {w : W} (hs : Safe h I Q p w) :
    Safe h.lossy I Q (p.lossy e) w := by
  induction p generalizing w with
  | done a => exact hs
  | fail e => exact hs
  | call o k ih =>
    rw [Prog.lossy]
    refine ⟨hs.1, fun c a w' hc => ?_⟩
    obtain ⟨fate, c⟩ := c
    cases hr : h o c w with
    | error e =>
      cases fate with
      | refused => cases hc; exact hs.1
      | answered => simp only [Handler.lossy, hr] at hc; cases hc
      | lost => simp only [Handler.lossy, hr] at hc; cases hc
    | ok r =>
      have hnext := hs.2 c r.1 r.2 hr
      cases fate with
      | refused => cases hc; exact hs.1
      | answered => simp only [Handler.lossy, hr] at hc; cases hc; exact ih r.1 hnext
      | lost => simp only [Handler.lossy, hr] at hc; cases hc; exact hnext.here hQ

/-- A loop that collects its results: what each pass keeps of those before it. -/
theorem Safe.mapM {J : List (β × γ) → W → Prop} {xs : List β} {f : β → Prog S ε γ}
    (hf : ∀ x ∈ xs, ∀ done w, J done w → Safe h I (fun y w => J (done ++ [(x, y)]) w) (f x) w) {w : W} (hw : J [] w) :
    Safe h I (fun ys w => ∃ pairs, pairs.map Prod.fst = xs ∧ pairs.map Prod.snd = ys ∧ J pairs w) (xs.mapM f) w := by
  have hall (xs : List β) (done : List (β × γ)) (w : W) (hw : J done w)
      (hf : ∀ x ∈ xs, ∀ done w, J done w → Safe h I (fun y w => J (done ++ [(x, y)]) w) (f x) w) :
      Safe h I (fun ys w => ∃ pairs, pairs.map Prod.fst = xs ∧ pairs.map Prod.snd = ys ∧ J (done ++ pairs) w)
        (xs.mapM f) w := by
    induction xs generalizing done w with
    | nil => exact ⟨[], rfl, rfl, by rw [List.append_nil]; exact hw⟩
    | cons x xs ih =>
      rw [List.mapM_cons]
      refine Safe.bind ((hf x List.mem_cons_self done w hw).mono fun y w hw => ?_)
      refine Safe.bind ((ih _ w hw fun z hz => hf z (List.mem_cons_of_mem x hz)).mono fun ys w hw => ?_)
      obtain ⟨pairs, hfst, hsnd, hJ⟩ := hw
      refine ⟨(x, y) :: pairs, by rw [List.map_cons, hfst], by rw [List.map_cons, hsnd], ?_⟩
      rw [List.append_cons]
      exact hJ
  exact hall xs [] w hw hf

end

/-- The world, beside the services. -/
def onWorld (h : Handler S ε Unit V) : Handler S ε (Answers T) (V × List (Asked T)) := (h.choosing fun _ => ()).fst

/-- The services, beside the world. -/
def onServices : Handler T ε (Answers T) (V × List (Asked T)) := recorded.snd

/-- Both. -/
def amongServices (h : Handler S ε Unit V) : Handler (S.sum T) ε (Answers T) (V × List (Asked T)) :=
  (onWorld h).sum onServices

section

variable {h : Handler S ε Unit V} {I : V × List (Asked T) → Prop} {w : V × List (Asked T)}

/-- A part that only reads returns what it finds, if it returns. -/
theorem Safe.finds {P : S.Op → Prop} (hread : ∀ o v a v', P o → h o () v = .ok (a, v') → v' = v)
    {Q : α → V × List (Asked T) → Prop} {p : Prog S ε α} (hp : Calls P p) (hI : I w)
    (hQ : ∀ a, exec h p w.1 = (.ok a, w.1) → Q a w) : Safe (onWorld h) I Q p w := by
  induction p with
  | done a => exact hQ a rfl
  | fail e => exact hI
  | call o k ih =>
    refine ⟨hI, fun c a w' hc => ?_⟩
    obtain ⟨hc, hlog⟩ := fst_ok hc
    have hsame : w' = w := Prod.ext (hread o w.1 a w'.1 hp.1 hc) hlog
    rw [hsame] at hc ⊢
    exact ih a (hp.2 a) fun b hb => hQ b ((exec_answered hc).trans hb)

/-- A call of the world. -/
theorem Safe.calls {o : S.Op} {Q : S.Ans o → V × List (Asked T) → Prop} (hI : I w)
    (hQ : ∀ a v, h o () w.1 = .ok (a, v) → Q a (v, w.2)) : Safe (onWorld h) I Q (op o) w := by
  refine ⟨hI, fun c a w' hc => ?_⟩
  obtain ⟨hc, hlog⟩ := fst_ok hc
  have hsame : w' = (w'.1, w.2) := Prod.ext rfl hlog
  rw [hsame]
  exact hQ a w'.1 hc

/-- A call of a service. -/
theorem Safe.asks {o : T.Op} {Q : T.Ans o → V × List (Asked T) → Prop} (hI : I w)
    (hQ : ∀ a, Q a (w.1, w.2 ++ [⟨o, a⟩])) : Safe (onServices : Handler T ε _ _) I Q (op o) w := by
  refine ⟨hI, fun c a w' hc => ?_⟩
  cases hc
  exact hQ _

end

end Effect
