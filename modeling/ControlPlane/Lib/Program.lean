import Mathlib.Logic.Basic
import Mathlib.Tactic.Common

/-!
# Programs that call operations

A program (`Prog`) either returns, raises, or calls an operation and goes on
with its answer. What an operation does to the world is a `Handler`; whatever
the world is free to do (which version of a row a read sees, whether a request
is recorded) is a choice `c` handed to it. A run (`run`) takes one choice for
each operation; a list of choices that ends early is a run that stops there,
as a process that dies between two operations does.

`Safe h I Q p w` is the rule such runs are reasoned with: wherever the run of
`p` from `w` stops or raises, `I` holds, and `Q` holds of what it returns. It
is defined by recursion on the program, composes over `bind` (`Safe.bind`),
and carries over to sequences of attempts at the same program
(`attempts_safe`). `Calls P p` says that `p` only calls operations in `P`;
then whatever these keep, `p` keeps (`Safe.of_calls`). `Fails P p` says the
same of the exceptions that `p` raises itself.
-/

namespace Effect

/-- The operations a program may call, and the type of each one's answer. -/
structure Sig where
  Op : Type
  Ans : Op → Type

/-- The operations of both. -/
def Sig.sum (S T : Sig) : Sig := ⟨S.Op ⊕ T.Op, Sum.elim S.Ans T.Ans⟩

/-- A program over `S` that returns an `α` or raises an `ε`. -/
inductive Prog (S : Sig) (ε α : Type) : Type
  | done (a : α)
  | fail (e : ε)
  | call (o : S.Op) (k : S.Ans o → Prog S ε α)

variable {S T : Sig} {ε α β C W E : Type}

namespace Prog

protected def bind : Prog S ε α → (α → Prog S ε β) → Prog S ε β
  | done a, f => f a
  | fail e, _ => fail e
  | call o k, f => call o fun a => (k a).bind f

instance : Monad (Prog S ε) where
  pure := done
  bind := Prog.bind

@[simp] theorem pure_eq (a : α) : (pure a : Prog S ε α) = done a := rfl
@[simp] theorem done_bind (a : α) (f : α → Prog S ε β) : (done a >>= f) = f a := rfl
@[simp] theorem fail_bind (e : ε) (f : α → Prog S ε β) : (fail e >>= f) = fail e := rfl
@[simp] theorem call_bind (o : S.Op) (k : S.Ans o → Prog S ε α) (f : α → Prog S ε β) :
    (call o k >>= f) = call o fun a => k a >>= f := rfl

instance : LawfulMonad (Prog S ε) := by
  refine LawfulMonad.mk' (Prog S ε) (fun p => ?_) (fun _ _ => rfl) fun p f g => ?_
  · induction p with
    | done a => rfl
    | fail e => rfl
    | call o k ih => exact congrArg (call o) (funext ih)
  · induction p with
    | done a => rfl
    | fail e => rfl
    | call o k ih => exact congrArg (call o) (funext ih)

/-- The program that calls `o` and returns its answer. -/
def op (o : S.Op) : Prog S ε (S.Ans o) := call o done

/-- A program with its exceptions turned into others. -/
def mapError {ε' : Type} (f : ε → ε') : Prog S ε α → Prog S ε' α
  | done a => done a
  | fail e => fail (f e)
  | call o k => call o fun a => (k a).mapError f

/-- A result that is already there, or its exception. -/
def ofExcept : Except ε α → Prog S ε α
  | .ok a => done a
  | .error e => fail e

/-- A program as one that may also call the operations of `T`. -/
def inl : Prog S ε α → Prog (S.sum T) ε α
  | done a => done a
  | fail e => fail e
  | call o k => call (S := S.sum T) (.inl o) fun a => (k a).inl

/-- A program as one that may also call the operations of `S`. -/
def inr : Prog T ε α → Prog (S.sum T) ε α
  | done a => done a
  | fail e => fail e
  | call o k => call (S := S.sum T) (.inr o) fun a => (k a).inr

end Prog

open Prog

/-- What an operation answers and does to the world, or what it raises. -/
def Handler (S : Sig) (ε C W : Type) := (o : S.Op) → C → W → Except ε (S.Ans o × W)

/-- Each operation by its own handler. -/
def Handler.sum (h : Handler S ε C W) (g : Handler T ε C W) : Handler (S.sum T) ε C W
  | .inl o => h o
  | .inr o => g o

/-- `h`, on the first part of a larger world. -/
def Handler.fst (h : Handler S ε C W) : Handler S ε C (W × E) := fun o c w =>
  (h o c w.1).map fun r => (r.1, r.2, w.2)

/-- `h`, on the second. -/
def Handler.snd (h : Handler S ε C E) : Handler S ε C (W × E) := fun o c w =>
  (h o c w.2).map fun r => (r.1, w.1, r.2)

/-- A call on the first part leaves the second alone. -/
theorem fst_ok {h : Handler S ε C W} {o : S.Op} {c : C} {v v' : W × E} {a : S.Ans o} (hc : h.fst o c v = .ok (a, v')) :
    h o c v.1 = .ok (a, v'.1) ∧ v'.2 = v.2 := by
  simp only [Handler.fst] at hc
  cases hr : h o c v.1 with
  | error e =>
    rw [hr] at hc
    cases hc
  | ok r =>
    rw [hr] at hc
    cases hc
    exact ⟨rfl, rfl⟩

/-- `h`, with others acting on the world (`e`) before each operation. -/
def Handler.amid (e : E → W → W) (h : Handler S ε C W) : Handler S ε (List E × C) W :=
  fun o c w => h o c.2 (c.1.foldl (fun w x => e x w) w)

/-- `h`, with its exceptions turned into others. -/
def Handler.mapError {ε' : Type} (f : ε → ε') (h : Handler S ε C W) : Handler S ε' C W := fun o c w =>
  match h o c w with
  | .ok r => .ok r
  | .error e => .error (f e)

/-- `h`, which takes its choice from a larger one. -/
def Handler.choosing {D : Type} (f : D → C) (h : Handler S ε C W) : Handler S ε D W := fun o d w => h o (f d) w

/-- What becomes of a call. -/
inductive Fate
  | answered
  /-- The call raises, and has done nothing. -/
  | refused
  /-- The call raises, though it was carried out. -/
  | lost
  deriving DecidableEq

/-- The operations of `S`, of which the answer may fail to come. -/
def Sig.lossy (S : Sig) : Sig := ⟨S.Op, fun o => Option (S.Ans o)⟩

/-- A program any of whose calls may raise `e`. -/
def Prog.lossy (e : ε) : Prog S ε α → Prog S.lossy ε α
  | .done a => .done a
  | .fail e => .fail e
  | .call o k => .call (S := S.lossy) o fun ans =>
    match ans with
    | some a => (k a).lossy e
    | none => .fail e

/-- Calls that meet the fate chosen for them. -/
def Handler.lossy (h : Handler S ε C W) : Handler S.lossy ε (Fate × C) W := fun o c w =>
  match c.1 with
  | .answered => (h o c.2 w).map fun r => (some r.1, r.2)
  | .refused => .ok (none, w)
  | .lost => (h o c.2 w).map fun r => (none, r.2)

/-- How a run ended. -/
inductive Outcome (ε α : Type)
  | returned (a : α)
  | raised (e : ε)
  | stopped

/-- The run of a program that answers its operations with the choices given,
and stops where they end. -/
def run (h : Handler S ε C W) : Prog S ε α → List C → W → Outcome ε α × W
  | .done a, _, w => (.returned a, w)
  | .fail e, _, w => (.raised e, w)
  | .call _ _, [], w => (.stopped, w)
  | .call o k, c :: cs, w =>
    match h o c w with
    | .error e => (.raised e, w)
    | .ok (a, w') => run h (k a) cs w'

theorem run_answered {h : Handler S ε C W} {o : S.Op} {k : S.Ans o → Prog S ε α} {c : C} {cs : List C} {w w' : W}
    {a : S.Ans o} (hc : h o c w = .ok (a, w')) : run h (.call o k) (c :: cs) w = run h (k a) cs w' := by
  simp only [run, hc]

/-- A run that returns has had its first operation answered. -/
theorem run_returned {h : Handler S ε C W} {o : S.Op} {k : S.Ans o → Prog S ε α} {cs : List C} {w w' : W} {r : α}
    (hr : run h (.call o k) cs w = (.returned r, w')) :
    ∃ c rest a w₁, cs = c :: rest ∧ h o c w = .ok (a, w₁) ∧ run h (k a) rest w₁ = (.returned r, w') := by
  cases cs with
  | nil => cases hr
  | cons c rest =>
    cases hc : h o c w with
    | error e =>
      simp only [run, hc] at hr
      cases hr
    | ok a => exact ⟨c, rest, a.1, a.2, rfl, hc, by rwa [run_answered hc] at hr⟩

/-- What a program returns or raises, and the world it leaves, where the world
leaves it no choice. -/
def exec (h : Handler S ε Unit W) : Prog S ε α → W → Except ε α × W
  | .done a, w => (.ok a, w)
  | .fail e, w => (.error e, w)
  | .call o k, w =>
    match h o () w with
    | .error e => (.error e, w)
    | .ok (a, w') => exec h (k a) w'

theorem exec_answered {h : Handler S ε Unit W} {o : S.Op} {k : S.Ans o → Prog S ε α} {w w' : W} {a : S.Ans o}
    (hc : h o () w = .ok (a, w')) : exec h (.call o k) w = exec h (k a) w' := by
  simp only [exec, hc]

theorem exec_raised {h : Handler S ε Unit W} {o : S.Op} {k : S.Ans o → Prog S ε α} {w : W} {e : ε}
    (hc : h o () w = .error e) : exec h (.call o k) w = (.error e, w) := by
  simp only [exec, hc]

theorem exec_bind (h : Handler S ε Unit W) (p : Prog S ε α) (f : α → Prog S ε β) (w : W) :
    exec h (p >>= f) w = match exec h p w with
      | (.ok a, w') => exec h (f a) w'
      | (.error e, w') => (.error e, w') := by
  induction p generalizing w with
  | done a => rfl
  | fail e => rfl
  | call o k ih =>
    simp only [call_bind, exec]
    split
    · rfl
    · exact ih _ _

/-- Where both parts return. -/
theorem exec_bind_ok {h : Handler S ε Unit W} {p : Prog S ε α} {f : α → Prog S ε β} {w : W} {b : β}
    (hb : (exec h (p >>= f) w).1 = .ok b) :
    ∃ a, (exec h p w).1 = .ok a ∧ (exec h (f a) (exec h p w).2).1 = .ok b := by
  rw [exec_bind] at hb
  split at hb
  · rename_i a w' hp
    exact ⟨a, by rw [hp], by rw [hp]; exact hb⟩
  · cases hb

@[simp] theorem exec_ofExcept (h : Handler S ε Unit W) (e : Except ε α) (w : W) :
    exec h (ofExcept e) w = (e, w) := by
  cases e with
  | error e => rfl
  | ok a => rfl

/-- A loop goes on from where its first pass leaves the world. -/
theorem exec_forM_cons {h : Handler S ε Unit W} {f : α → Prog S ε PUnit} {x : α} {w w' : W}
    (hx : exec h (f x) w = (.ok ⟨⟩, w')) (xs : List α) :
    exec h ((x :: xs).forM f) w = exec h (xs.forM f) w' := by
  refine (exec_bind h (f x) (fun _ => xs.forM f) w).trans ?_
  rw [hx]

/-- A loop whose passes return whatever the world, exactly where `ok` holds,
returns exactly if it holds of all. -/
theorem exec_forM_ok {h : Handler S ε Unit W} {f : α → Prog S ε PUnit} {ok : α → Prop}
    (hf : ∀ x w, (exec h (f x) w).1 = .ok ⟨⟩ ↔ ok x) (xs : List α) (w : W) :
    (exec h (xs.forM f) w).1 = .ok ⟨⟩ ↔ ∀ x ∈ xs, ok x := by
  induction xs generalizing w with
  | nil => exact iff_of_true rfl (List.forall_mem_nil _)
  | cons x xs ih =>
    rw [List.forall_mem_cons]
    by_cases hok : ok x
    · obtain ⟨w', hx⟩ : ∃ w', exec h (f x) w = (.ok ⟨⟩, w') := ⟨_, Prod.ext ((hf x w).mpr hok) rfl⟩
      rw [exec_forM_cons hx, ih w']
      exact (and_iff_right hok).symm
    · refine iff_of_false (fun hall => hok ((hf x w).mp ?_)) fun hall => hok hall.1
      -- a loop that returns has returned from its first pass
      have hbind : exec h ((x :: xs).forM f) w = _ := exec_bind h (f x) (fun _ => xs.forM f) w
      rw [hbind] at hall
      split at hall
      · rename_i hx
        rw [hx]
      · cases hall

/-! ## What a program that returns ensures -/

/-- The program returns, and `Q` holds of what it returns and of the world it leaves. -/
def Returns (h : Handler S ε Unit W) (Q : α → W → Prop) (p : Prog S ε α) (w : W) : Prop :=
  ∃ a w', exec h p w = (.ok a, w') ∧ Q a w'

section

variable {h : Handler S ε Unit W} {Q : α → W → Prop} {w : W}

theorem Returns.mono {Q' : α → W → Prop} {p : Prog S ε α} (hp : Returns h Q p w) (hQ : ∀ a w, Q a w → Q' a w) :
    Returns h Q' p w := by
  obtain ⟨a, w', he, hq⟩ := hp
  exact ⟨a, w', he, hQ a w' hq⟩

theorem Returns.bind {R : β → W → Prop} {p : Prog S ε α} {f : α → Prog S ε β}
    (hp : Returns h (fun a w => Returns h R (f a) w) p w) : Returns h R (p >>= f) w := by
  obtain ⟨a, w₁, he, b, w₂, hf, hr⟩ := hp
  refine ⟨b, w₂, ?_, hr⟩
  rw [exec_bind, he]
  exact hf

/-- What each pass of a loop keeps, the loop keeps. -/
theorem Returns.forM {I : W → Prop} {xs : List α} {f : α → Prog S ε PUnit}
    (hf : ∀ x ∈ xs, ∀ w, I w → Returns h (fun _ w => I w) (f x) w) (hw : I w) :
    Returns h (fun _ w => I w) (xs.forM f) w := by
  induction xs generalizing w with
  | nil => exact ⟨_, w, rfl, hw⟩
  | cons x xs ih =>
    refine Returns.bind ((hf x List.mem_cons_self w hw).mono fun _ w' hw' => ?_)
    exact ih (fun y hy => hf y (List.mem_cons_of_mem x hy)) hw'

theorem Returns.mapM {I : W → Prop} {xs : List α} {f : α → Prog S ε β}
    (hf : ∀ x ∈ xs, ∀ w, I w → Returns h (fun _ w => I w) (f x) w) (hw : I w) :
    Returns h (fun _ w => I w) (xs.mapM f) w := by
  induction xs generalizing w with
  | nil => exact ⟨_, w, rfl, hw⟩
  | cons x xs ih =>
    rw [List.mapM_cons]
    refine Returns.bind ((hf x List.mem_cons_self w hw).mono fun _ w' hw' => ?_)
    refine Returns.bind ((ih (fun y hy => hf y (List.mem_cons_of_mem x hy)) hw').mono fun _ w'' hw'' => ?_)
    exact ⟨_, w'', rfl, hw''⟩

end

section

variable {h : Handler S ε Unit W} {g : Handler T ε Unit E}

/-- A part on the one side does what it does there. -/
theorem exec_inl (p : Prog S ε α) (w : W) (e : E) :
    exec (h.fst.sum g.snd) p.inl (w, e) = ((exec h p w).1, (exec h p w).2, e) := by
  induction p generalizing w with
  | done a => rfl
  | fail e => rfl
  | call o k ih =>
    cases hc : h o () w with
    | error x =>
      have hc' : (h.fst.sum g.snd) (.inl o) () (w, e) = .error x :=
        congrArg (Except.map fun r : S.Ans o × W => (r.1, r.2, e)) hc
      rw [exec_raised hc]
      exact exec_raised (S := S.sum T) (o := .inl o) (k := fun a => (k a).inl) hc'
    | ok r =>
      have hc' : (h.fst.sum g.snd) (.inl o) () (w, e) = .ok (r.1, r.2, e) :=
        congrArg (Except.map fun r : S.Ans o × W => (r.1, r.2, e)) hc
      rw [exec_answered hc, ← ih r.1 r.2]
      exact exec_answered (S := S.sum T) (o := .inl o) (k := fun a => (k a).inl) hc'

theorem exec_inr (p : Prog T ε α) (w : W) (e : E) :
    exec (h.fst.sum g.snd) p.inr (w, e) = ((exec g p e).1, w, (exec g p e).2) := by
  induction p generalizing e with
  | done a => rfl
  | fail e => rfl
  | call o k ih =>
    cases hc : g o () e with
    | error x =>
      have hc' : (h.fst.sum g.snd) (.inr o) () (w, e) = .error x :=
        congrArg (Except.map fun r : T.Ans o × E => (r.1, w, r.2)) hc
      rw [exec_raised hc]
      exact exec_raised (S := S.sum T) (o := .inr o) (k := fun a => (k a).inr) hc'
    | ok r =>
      have hc' : (h.fst.sum g.snd) (.inr o) () (w, e) = .ok (r.1, w, r.2) :=
        congrArg (Except.map fun r : T.Ans o × E => (r.1, w, r.2)) hc
      rw [exec_answered hc, ← ih r.1 r.2]
      exact exec_answered (S := S.sum T) (o := .inr o) (k := fun a => (k a).inr) hc'

theorem Returns.left {Q : α → W → Prop} {p : Prog S ε α} {w : W} (hp : Returns h Q p w) (e : E) :
    Returns (h.fst.sum g.snd) (fun a w => Q a w.1 ∧ w.2 = e) p.inl (w, e) := by
  obtain ⟨a, w', he, hq⟩ := hp
  exact ⟨a, (w', e), by rw [exec_inl, he], hq, rfl⟩

theorem Returns.right {Q : α → E → Prop} {p : Prog T ε α} {e : E} (hp : Returns g Q p e) (w : W) :
    Returns (h.fst.sum g.snd) (fun a v => v.1 = w ∧ Q a v.2) p.inr (w, e) := by
  obtain ⟨a, e', he, hq⟩ := hp
  exact ⟨a, (w, e'), by rw [exec_inr, he], rfl, hq⟩

end

/-! ## What a run keeps wherever it stops -/

/-- Wherever a run of the program from `w` stops or raises, `I` holds, and
`Q` holds of what it returns. -/
def Safe (h : Handler S ε C W) (I : W → Prop) (Q : α → W → Prop) : Prog S ε α → W → Prop
  | .done a, w => Q a w
  | .fail _, w => I w
  | .call o k, w => I w ∧ ∀ c a w', h o c w = .ok (a, w') → Safe h I Q (k a) w'

/-- What `Safe` says of one outcome. -/
def Ends (I : W → Prop) (Q : α → W → Prop) : Outcome ε α × W → Prop
  | (.returned a, w) => Q a w
  | (.raised _, w) => I w
  | (.stopped, w) => I w

variable {h : Handler S ε C W} {I : W → Prop} {Q : α → W → Prop}

/-- However a run ends, where what it returns keeps `I` too. -/
theorem Ends.world {r : Outcome ε α × W} (he : Ends I Q r) (hQ : ∀ a w, Q a w → I w) : I r.2 := by
  obtain ⟨out, w⟩ := r
  cases out with
  | returned a => exact hQ a w he
  | raised e => exact he
  | stopped => exact he

theorem Safe.run {p : Prog S ε α} {w : W} (hs : Safe h I Q p w) (cs : List C) :
    Ends I Q (run h p cs w) := by
  induction p generalizing w cs with
  | done a => exact hs
  | fail e => exact hs
  | call o k ih =>
    cases cs with
    | nil => exact hs.1
    | cons c cs =>
      simp only [Effect.run]
      split
      · exact hs.1
      · rename_i a w' hc
        exact ih a (hs.2 c a w' hc) cs

theorem Safe.mono {Q' : α → W → Prop} {p : Prog S ε α} {w : W} (hs : Safe h I Q p w)
    (hQ : ∀ a w, Q a w → Q' a w) : Safe h I Q' p w := by
  induction p generalizing w with
  | done a => exact hQ a w hs
  | fail e => exact hs
  | call o k ih => exact ⟨hs.1, fun c a w' hc => ih a (hs.2 c a w' hc)⟩

/-- A program that keeps more is safe for less. -/
theorem Safe.weaken {I' : W → Prop} {p : Prog S ε α} {w : W} (hs : Safe h I Q p w) (hI : ∀ w, I w → I' w) :
    Safe h I' Q p w := by
  induction p generalizing w with
  | done a => exact hs
  | fail e => exact hI w hs
  | call o k ih => exact ⟨hI w hs.1, fun c a w' hc => ih a (hs.2 c a w' hc)⟩

theorem Safe.bind {R : β → W → Prop} {p : Prog S ε α} {f : α → Prog S ε β} {w : W}
    (hs : Safe h I (fun a w => Safe h I R (f a) w) p w) : Safe h I R (p >>= f) w := by
  induction p generalizing w with
  | done a => exact hs
  | fail e => exact hs
  | call o k ih => exact ⟨hs.1, fun c a w' hc => ih a (hs.2 c a w' hc)⟩

/-- What each pass of a loop keeps where it returns, the loop does. -/
theorem Safe.forM {J : W → Prop} {xs : List β} {f : β → Prog S ε PUnit} {w : W}
    (hf : ∀ x ∈ xs, ∀ w, J w → Safe h I (fun _ w => J w) (f x) w) (hw : J w) :
    Safe h I (fun _ w => J w) (xs.forM f) w := by
  induction xs generalizing w with
  | nil => exact hw
  | cons x xs ih =>
    refine Safe.bind ((hf x List.mem_cons_self w hw).mono fun _ w' hw' => ?_)
    exact ih (fun y hy => hf y (List.mem_cons_of_mem x hy)) hw'

theorem Safe.inl {g : Handler T ε C W} {p : Prog S ε α} {w : W} (hs : Safe h I Q p w) :
    Safe (h.sum g) I Q p.inl w := by
  induction p generalizing w with
  | done a => exact hs
  | fail e => exact hs
  | call o k ih => exact ⟨hs.1, fun c a w' hc => ih a (hs.2 c a w' hc)⟩

theorem Safe.inr {g : Handler T ε C W} {Q : α → W → Prop} {p : Prog T ε α} {w : W}
    (hs : Safe g I Q p w) : Safe (h.sum g) I Q p.inr w := by
  induction p generalizing w with
  | done a => exact hs
  | fail e => exact hs
  | call o k ih => exact ⟨hs.1, fun c a w' hc => ih a (hs.2 c a w' hc)⟩

/-- A call that is answered is so under any names of its exceptions. -/
theorem mapError_ok {ε' : Type} {g : ε → ε'} {o : S.Op} {c : C} {w : W} {r : S.Ans o × W}
    (hc : h.mapError g o c w = .ok r) : h o c w = .ok r := by
  simp only [Handler.mapError] at hc
  split at hc
  · rename_i r' hr
    cases hc
    exact hr
  · cases hc

theorem Safe.mapError {ε' : Type} {f g : ε → ε'} {p : Prog S ε α} {w : W} (hs : Safe h I Q p w) :
    Safe (h.mapError g) I Q (p.mapError f) w := by
  induction p generalizing w with
  | done a => exact hs
  | fail e => exact hs
  | call o k ih =>
    exact ⟨hs.1, fun c a w' hc => ih a (hs.2 c a w' (mapError_ok hc))⟩

theorem Safe.choosing {D : Type} {f : D → C} {p : Prog S ε α} {w : W} (hs : Safe h I Q p w) :
    Safe (h.choosing f) I Q p w := by
  induction p generalizing w with
  | done a => exact hs
  | fail e => exact hs
  | call o k ih => exact ⟨hs.1, fun c a w' hc => ih a (hs.2 (f c) a w' hc)⟩

/-- A result that is already there is safe if what it may be is. -/
theorem Safe.ofExcept {r : Except ε α} {w : W} (hI : I w) (hQ : ∀ a, r = .ok a → Q a w) :
    Safe h I Q (Prog.ofExcept r) w := by
  cases r with
  | error e => exact hI
  | ok a => exact hQ a rfl

/-- A call amid others is one from a world that has whatever they keep. -/
theorem amid_call {e : E → W → W} {A : W → Prop} (he : ∀ x w, A w → A (e x w)) {o : S.Op} {c : List E × C}
    {w w' : W} {a : S.Ans o} (hw : A w) (hc : h.amid e o c w = .ok (a, w')) :
    ∃ w₁, A w₁ ∧ h o c.2 w₁ = .ok (a, w') := by
  have hxs : ∀ (xs : List E) w, A w → A (xs.foldl (fun w x => e x w) w) := by
    intro xs
    induction xs with
    | nil => exact fun w hw => hw
    | cons x xs ih => exact fun w hw => ih _ (he x w hw)
  exact ⟨_, hxs c.1 w hw, hc⟩

/-- What others keep, and a call does, the call amid them keeps. -/
theorem amid_keeps {e : E → W → W} (he : ∀ x w, I w → I (e x w)) {o : S.Op}
    (hk : ∀ c w a w', I w → h o c w = .ok (a, w') → I w') {c : List E × C} {w w' : W} {a : S.Ans o} (hw : I w)
    (hc : h.amid e o c w = .ok (a, w')) : I w' := by
  obtain ⟨w₁, h₁, h⟩ := amid_call he hw hc
  exact hk _ _ _ _ h₁ h

/-- What a call keeps, it keeps whatever becomes of its answer. -/
theorem lossy_keeps {o : S.Op} {w w' : W} {c : Fate × C} {a : Option (S.Ans o)} (hw : I w)
    (hk : ∀ a w', h o c.2 w = .ok (a, w') → I w') (hc : h.lossy o c w = .ok (a, w')) : I w' := by
  obtain ⟨fate, c⟩ := c
  cases hr : h o c w with
  | error e =>
    cases fate with
    | refused => cases hc; exact hw
    | answered => simp only [Handler.lossy, hr] at hc; cases hc
    | lost => simp only [Handler.lossy, hr] at hc; cases hc
  | ok r =>
    cases fate with
    | refused => cases hc; exact hw
    | answered => simp only [Handler.lossy, hr] at hc; cases hc; exact hk _ _ hr
    | lost => simp only [Handler.lossy, hr] at hc; cases hc; exact hk _ _ hr

/-! ## Attempts, one after another -/

/-- The outcomes of attempts at the same program, each from the world the one
before it left. -/
def attempts (h : Handler S ε C W) (p : Prog S ε α) : List (List C) → W → List (Outcome ε α) × W
  | [], w => ([], w)
  | cs :: rest, w =>
    let r := run h p cs w
    let rs := attempts h p rest r.2
    (r.1 :: rs.1, rs.2)

/-- Each attempt starts in a world that meets `ok`. -/
def Starts (h : Handler S ε C W) (p : Prog S ε α) (ok : W → Prop) : List (List C) → W → Prop
  | [], _ => True
  | cs :: rest, w => ok w ∧ Starts h p ok rest (run h p cs w).2

theorem starts_true (p : Prog S ε α) (scripts : List (List C)) (w : W) :
    Starts h p (fun _ => True) scripts w := by
  induction scripts generalizing w with
  | nil => trivial
  | cons cs rest ih => exact ⟨trivial, ih _⟩

/-- What every attempt keeps wherever it stops, any sequence of attempts
keeps; and what each one that returns ensures, they all ensure. -/
theorem attempts_safe {ok : W → Prop} {P : α → Prop} {p : Prog S ε α}
    (hp : ∀ w, I w → ok w → Safe h I (fun a w => I w ∧ P a) p w) {scripts : List (List C)} {w : W}
    (hw : I w) (hs : Starts h p ok scripts w) :
    I (attempts h p scripts w).2 ∧ ∀ a, .returned a ∈ (attempts h p scripts w).1 → P a := by
  induction scripts generalizing w with
  | nil => exact ⟨hw, fun a ha => nomatch ha⟩
  | cons cs rest ih =>
    have he := (hp w hw hs.1).run cs
    have hr := hs.2
    simp only [attempts]
    generalize run h p cs w = r at he hr ⊢
    obtain ⟨out, w'⟩ := r
    have hI : I w' := he.world fun _ _ hq => hq.1
    refine ⟨(ih hI hr).1, fun a ha => ?_⟩
    rcases List.mem_cons.mp ha with ha | ha
    · subst ha; exact he.2
    · exact (ih hI hr).2 a ha

/-! ## Programs, one after another -/

/-- The world after some programs' runs, each from the world the one before it
left, wherever that stopped or raised. -/
def runs (h : Handler S ε C W) (w : W) (ps : List (Prog S ε α × List C)) : W :=
  ps.foldl (fun w p => (run h p.1 p.2 w).2) w

/-- What each program keeps wherever it stops, any sequence of them keeps. -/
theorem runs_safe {ps : List (Prog S ε α × List C)}
    (hp : ∀ p ∈ ps, ∀ w, I w → Safe h I (fun _ w => I w) p.1 w) {w : W} (hw : I w) : I (runs h w ps) := by
  induction ps generalizing w with
  | nil => exact hw
  | cons p ps ih =>
    refine ih (fun q hq => hp q (List.mem_cons_of_mem p hq)) ?_
    exact ((hp p List.mem_cons_self w hw).run p.2).world fun _ _ hI => hI

/-! ## The operations a program may call -/

/-- Every operation the program may call is in `P`. -/
def Calls (P : S.Op → Prop) : Prog S ε α → Prop
  | .done _ => True
  | .fail _ => True
  | .call o k => P o ∧ ∀ a, Calls P (k a)

theorem calls_true (p : Prog S ε α) : Calls (fun _ => True) p := by
  induction p with
  | done a => trivial
  | fail e => trivial
  | call o k ih => exact ⟨trivial, ih⟩

theorem Calls.bind {P : S.Op → Prop} {p : Prog S ε α} {f : α → Prog S ε β} (hp : Calls P p)
    (hf : ∀ a, Calls P (f a)) : Calls P (p >>= f) := by
  induction p with
  | done a => exact hf a
  | fail e => trivial
  | call o k ih => exact ⟨hp.1, fun a => ih a (hp.2 a)⟩

theorem Calls.forM {P : S.Op → Prop} {xs : List β} {f : β → Prog S ε PUnit} (hf : ∀ x ∈ xs, Calls P (f x)) :
    Calls P (xs.forM f) := by
  induction xs with
  | nil => trivial
  | cons x xs ih => exact (hf x List.mem_cons_self).bind fun _ => ih fun y hy => hf y (List.mem_cons_of_mem x hy)

theorem Calls.mono {P P' : S.Op → Prop} {p : Prog S ε α} (hp : Calls P p) (h : ∀ o, P o → P' o) :
    Calls P' p := by
  induction p with
  | done a => trivial
  | fail e => trivial
  | call o k ih => exact ⟨h o hp.1, fun a => ih a (hp.2 a)⟩

theorem Calls.inl {P : (S.sum T).Op → Prop} {p : Prog S ε α} (hp : Calls (fun o => P (.inl o)) p) :
    Calls P (p.inl (T := T)) := by
  induction p with
  | done a => trivial
  | fail e => trivial
  | call o k ih => exact ⟨hp.1, fun a => ih a (hp.2 a)⟩

theorem Calls.inr {P : (S.sum T).Op → Prop} {p : Prog T ε α} (hp : Calls (fun o => P (.inr o)) p) :
    Calls P (p.inr (S := S)) := by
  induction p with
  | done a => trivial
  | fail e => trivial
  | call o k ih => exact ⟨hp.1, fun a => ih a (hp.2 a)⟩

theorem Calls.mapError {ε' : Type} {P : S.Op → Prop} {p : Prog S ε α} (hp : Calls P p) (f : ε → ε') :
    Calls P (p.mapError f) := by
  induction p with
  | done a => trivial
  | fail e => trivial
  | call o k ih => exact ⟨hp.1, fun a => ih a (hp.2 a)⟩

theorem Calls.ofExcept {P : S.Op → Prop} (r : Except ε α) : Calls P (Prog.ofExcept r : Prog S ε α) := by
  cases r with
  | error e => trivial
  | ok a => trivial

theorem Calls.lossy {P : S.Op → Prop} {p : Prog S ε α} (hp : Calls P p) (e : ε) :
    Calls (S := S.lossy) P (p.lossy e) := by
  induction p with
  | done a => trivial
  | fail e => trivial
  | call o k ih =>
    rw [Prog.lossy]
    refine ⟨hp.1, fun ans => ?_⟩
    cases ans with
    | some a => exact ih a (hp.2 a)
    | none => trivial

/-- What the operations in `P` keep, a program that calls no others keeps. -/
theorem Safe.of_calls {P : S.Op → Prop} (hI : ∀ o c w a w', P o → I w → h o c w = .ok (a, w') → I w')
    {p : Prog S ε α} (hp : Calls P p) {w : W} (hw : I w) : Safe h I (fun _ w => I w) p w := by
  induction p generalizing w with
  | done a => exact hw
  | fail e => exact hw
  | call o k ih => exact ⟨hw, fun c a w' hc => ih a (hp.2 a) (hI o c w a w' hp.1 hw hc)⟩

/-- What the operations in `P` keep, a program keeps where the world leaves it no choice. -/
theorem exec_of_calls {h : Handler S ε Unit W} {P : S.Op → Prop}
    (hI : ∀ o w a w', P o → I w → h o () w = .ok (a, w') → I w') {p : Prog S ε α} (hp : Calls P p) {w : W} (hw : I w) :
    I (exec h p w).2 := by
  induction p generalizing w with
  | done a => exact hw
  | fail e => exact hw
  | call o k ih =>
    simp only [exec]
    split
    · exact hw
    · rename_i a w' hc
      exact ih a (hp.2 a) (hI o w a w' hp.1 hw hc)

/-! ## What a program raises -/

/-- Whatever the program raises itself satisfies `P`. -/
def Fails (P : ε → Prop) : Prog S ε α → Prop
  | .done _ => True
  | .fail e => P e
  | .call _ k => ∀ a, Fails P (k a)

section

variable {P : ε → Prop}

theorem Fails.bind {p : Prog S ε α} {f : α → Prog S ε β} (hp : Fails P p) (hf : ∀ a, Fails P (f a)) :
    Fails P (p >>= f) := by
  induction p with
  | done a => exact hf a
  | fail e => exact hp
  | call o k ih => exact fun a => ih a (hp a)

theorem Fails.inl {p : Prog S ε α} (hp : Fails P p) : Fails P (p.inl (T := T)) := by
  induction p with
  | done a => trivial
  | fail e => exact hp
  | call o k ih => exact fun a => ih a (hp a)

theorem Fails.inr {p : Prog T ε α} (hp : Fails P p) : Fails P (p.inr (S := S)) := by
  induction p with
  | done a => trivial
  | fail e => exact hp
  | call o k ih => exact fun a => ih a (hp a)

theorem Fails.ofExcept {r : Except ε α} (hr : ∀ e, r = .error e → P e) :
    Fails P (Prog.ofExcept r : Prog S ε α) := by
  cases r with
  | error e => exact hr e rfl
  | ok a => trivial

end

end Effect
