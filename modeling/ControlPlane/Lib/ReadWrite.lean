import ControlPlane.Lib.Pool

/-!
# Two clients that read and write back

A client reads a value of the world, and later writes one it made of what it
read, or nothing. `I v w` says that the world `w` holds the value `v`; what
else the clients rely on is part of it.

* `Ahead`: what a client may still do: at most one write, its last call.
* `Reads`: a client that has yet to read, and what it makes of the value.
* `two_clients`: in every schedule of two such clients that both end, the
  value is the one some order gives if one of them reads after the other has
  ended, and otherwise what the last to write made of the first value.
-/

namespace Effect

open Prog

variable {S : Sig} {ε α V W : Type}

/-- What is left to the program keeps the value, and writes what `o` says, as
its last call. -/
def Ahead (h : Handler S ε Unit W) (I : V → W → Prop) : Option V → Prog S ε α → Prop
  | o, .done _ => o = none
  | o, .fail _ => o = none
  | o, .call op k => ∀ v w, I v w → ∃ ans w', h op () w = .ok (ans, w') ∧
      ((I v w' ∧ Ahead h I o (k ans)) ∨ ∃ x, o = some x ∧ I x w' ∧ Ended (k ans))

/-- The program's next call reads the value, and `f` is what it then writes. -/
def Reads (h : Handler S ε Unit W) (I : V → W → Prop) (f : V → Option V) : Prog S ε α → Prop
  | .call op k => ∀ v w, I v w → ∃ ans w', h op () w = .ok (ans, w') ∧ I v w' ∧ Ahead h I (f v) (k ans)
  | _ => False

variable {h : Handler S ε Unit W} {I : V → W → Prop} {f : V → Option V}

theorem Reads.not_ended {p : Prog S ε α} (hp : Reads h I f p) : ¬ Ended p := by
  cases p with
  | call op k => exact id
  | _ => exact hp.elim

theorem Ahead.of_ended {o : Option V} {p : Prog S ε α} (hp : Ahead h I o p) (he : Ended p) : o = none := by
  cases p with
  | call op k => exact he.elim
  | _ => exact hp

theorem ahead_none {p : Prog S ε α} (he : Ended p) : Ahead h I none p := by
  cases p with
  | call op k => exact he.elim
  | _ => rfl

/-- Alone, a client writes what it has ahead. -/
theorem Ahead.exec {o : Option V} {p : Prog S ε α} {v : V} {w : W} (hp : Ahead h I o p) (hI : I v w) :
    I (o.getD v) (exec h p w).2 := by
  induction p generalizing w with
  | done a => rw [show o = none from hp]; exact hI
  | fail e => rw [show o = none from hp]; exact hI
  | call op k ih =>
    obtain ⟨ans, w', hc, ⟨hI', ha⟩ | ⟨x, rfl, hI', he⟩⟩ := hp v w hI
    · simp only [Effect.exec, hc]
      exact ih ans ha hI'
    · simp only [Effect.exec, hc]
      cases hk : k ans with
      | call op' k' => rw [hk] at he; exact he.elim
      | done a => exact hI'
      | fail e => exact hI'

/-- Alone, a client writes what it makes of the value. -/
theorem Reads.exec {p : Prog S ε α} {v : V} {w : W} (hp : Reads h I f p) (hI : I v w) :
    I ((f v).getD v) (exec h p w).2 := by
  cases p with
  | done a => exact hp.elim
  | fail e => exact hp.elim
  | call op k =>
    obtain ⟨ans, w', hc, hI', ha⟩ := hp v w hI
    simp only [Effect.exec, hc]
    exact ha.exec hI'

/-! ## Steps of two clients -/

variable {p : Pool S ε α W Bool} {v : V}

/-- A step of a client that has read: the value stays and so does what it has
ahead, or it has written. -/
theorem Ahead.step {x : Bool × Unit} {o : Option V} (ha : Ahead h I o (p.thread x.1)) (hI : I v p.world) :
    (I v (p.step (fun _ => h) x).world ∧ Ahead h I o ((p.step (fun _ => h) x).thread x.1)) ∨
      ∃ y, o = some y ∧ I y (p.step (fun _ => h) x).world ∧ Ended ((p.step (fun _ => h) x).thread x.1) := by
  cases ht : p.thread x.1 with
  | done a => exact .inl (by simpa only [Pool.step, ht] using ⟨hI, ht ▸ ha⟩)
  | fail e => exact .inl (by simpa only [Pool.step, ht] using ⟨hI, ht ▸ ha⟩)
  | call op k =>
    rw [ht] at ha
    obtain ⟨ans, w', hc, h'⟩ := ha v p.world hI
    simp only [Pool.step, ht, hc, Function.update_self]
    exact h'

/-- A client's read. -/
theorem Reads.step {x : Bool × Unit} (hr : Reads h I f (p.thread x.1)) (hI : I v p.world) :
    I v (p.step (fun _ => h) x).world ∧ Ahead h I (f v) ((p.step (fun _ => h) x).thread x.1) := by
  cases ht : p.thread x.1 with
  | done a => rw [ht] at hr; exact hr.elim
  | fail e => rw [ht] at hr; exact hr.elim
  | call op k =>
    rw [ht] at hr
    obtain ⟨ans, w', hc, h'⟩ := hr v p.world hI
    simp only [Pool.step, ht, hc, Function.update_self]
    exact h'

theorem step_other (x : Bool × Unit) : (p.step (fun _ => h) x).thread (!x.1) = p.thread (!x.1) :=
  Pool.step_thread_ne _ p (by simp)

/-- Once both have read, the last to write leaves its value. -/
theorem both_read {sched : List (Bool × Unit)} {o : Bool → Option V} (ha : ∀ i, Ahead h I (o i) (p.thread i))
    (hI : I v p.world) (hd : ∀ i, Ended ((p.run (fun _ => h) sched).thread i)) :
    ∃ i, I (((o i).or (o !i)).getD v) (p.run (fun _ => h) sched).world := by
  induction sched generalizing p v o with
  | nil =>
    refine ⟨true, ?_⟩
    rw [(ha true).of_ended (hd true), (ha !true).of_ended (hd !true)]
    exact hI
  | cons x xs ih =>
    rcases (ha x.1).step hI with ⟨hI', ha'⟩ | ⟨y, ho, hI', he⟩
    · refine ih (p := p.step (fun _ => h) x) (o := o) (fun i => ?_) hI' hd
      by_cases hi : i = x.1
      · subst hi; exact ha'
      · rw [Pool.step_thread_ne _ p hi]; exact ha i
    · -- the client that wrote has nothing ahead any more
      obtain ⟨j, hj⟩ := ih (p := p.step (fun _ => h) x) (o := Function.update o x.1 none) (fun i => by
        by_cases hi : i = x.1
        · subst hi
          rw [Function.update_self]
          exact ahead_none he
        · rw [Function.update_of_ne hi, Pool.step_thread_ne _ p hi]
          exact ha i) hI' hd
      -- what it wrote stays, unless the other one writes after it
      rw [Pool.run_cons]
      cases hn : o (!x.1) with
      | none =>
        refine ⟨x.1, ?_⟩
        rw [ho, hn]
        by_cases e : j = x.1
        · subst e; simpa [hn] using hj
        · rw [Bool.eq_not_of_ne e] at hj; simpa [hn] using hj
      | some z =>
        refine ⟨!x.1, ?_⟩
        rw [hn]
        by_cases e : j = x.1
        · subst e; simpa [hn] using hj
        · rw [Bool.eq_not_of_ne e] at hj; simpa [hn] using hj

/-! ## The two orders of events -/

/-- Client `i` takes its first step once the other has ended. -/
def ReadsAfter (h : Handler S ε Unit W) (p : Pool S ε α W Bool) (sched : List (Bool × Unit)) (i : Bool) : Prop :=
  ∃ before rest, sched = before ++ (i, ()) :: rest ∧ (∀ y ∈ before, y.1 ≠ i) ∧
    Ended ((p.run (fun _ => h) before).thread !i)

theorem readsAfter_self {x : Bool × Unit} {xs : List (Bool × Unit)} :
    ReadsAfter h p (x :: xs) x.1 ↔ Ended (p.thread !x.1) := by
  constructor
  · rintro ⟨before, rest, e, hb, he⟩
    cases before with
    | nil => exact he
    | cons y ys =>
      cases e
      exact absurd rfl (hb x List.mem_cons_self)
  · intro he
    exact ⟨[], xs, rfl, fun _ hy => absurd hy List.not_mem_nil, he⟩

theorem readsAfter_other {x : Bool × Unit} {xs : List (Bool × Unit)} {i : Bool} (hi : x.1 ≠ i) :
    ReadsAfter h p (x :: xs) i ↔ ReadsAfter h (p.step (fun _ => h) x) xs i := by
  constructor
  · rintro ⟨before, rest, e, hb, he⟩
    cases before with
    | nil => cases e; exact absurd rfl hi
    | cons y ys =>
      cases e
      exact ⟨ys, rest, rfl, fun z hz => hb z (List.mem_cons_of_mem _ hz), he⟩
  · rintro ⟨before, rest, rfl, hb, he⟩
    refine ⟨x :: before, rest, rfl, fun z hz => ?_, he⟩
    rcases List.mem_cons.mp hz with rfl | hz
    · exact hi
    · exact hb z hz

/-- A client that has yet to read reads after one that has ended. -/
theorem readsAfter_of_ended {sched : List (Bool × Unit)} {i : Bool} (he : Ended (p.thread i))
    (hr : Reads h I f (p.thread !i)) (hd : Ended ((p.run (fun _ => h) sched).thread !i)) :
    ReadsAfter h p sched !i := by
  induction sched generalizing p with
  | nil => exact absurd hd hr.not_ended
  | cons x xs ih =>
    by_cases hx : x.1 = i
    · subst hx
      rw [readsAfter_other (by simp), Pool.step_ended he]
      refine ih he hr ?_
      rw [← Pool.step_ended he]
      exact hd
    · have hx : x.1 = !i := Bool.eq_not_of_ne hx
      rw [← hx, readsAfter_self, hx, Bool.not_not]
      exact he

/-- One client has read, the other has not. -/
theorem one_read {sched : List (Bool × Unit)} {i : Bool} {o : Option V} (ha : Ahead h I o (p.thread i))
    (hr : Reads h I f (p.thread !i)) (hI : I v p.world) (hd : ∀ i, Ended ((p.run (fun _ => h) sched).thread i)) :
    (ReadsAfter h p sched (!i) →
      I ((f (o.getD v)).getD (o.getD v)) (p.run (fun _ => h) sched).world) ∧
    (¬ ReadsAfter h p sched (!i) →
      I ((o.or (f v)).getD v) (p.run (fun _ => h) sched).world ∨
        I (((f v).or o).getD v) (p.run (fun _ => h) sched).world) := by
  induction sched generalizing p v o with
  | nil => exact absurd (hd !i) hr.not_ended
  | cons x xs ih =>
    by_cases hx : x.1 = i
    · subst hx
      have hne : x.1 ≠ !x.1 := by simp
      rw [readsAfter_other hne]
      have hr' : Reads h I f ((p.step (fun _ => h) x).thread !x.1) := by rw [step_other]; exact hr
      rcases ha.step hI with ⟨hI', ha'⟩ | ⟨y, rfl, hI', he⟩
      · exact ih ha' hr' hI' hd
      · have hnow := ih (ahead_none he) hr' hI' hd
        refine ⟨fun hs => hnow.1 hs, fun hs => ?_⟩
        -- it has ended, so the other reads after it
        exact absurd (readsAfter_of_ended he hr' (hd _)) hs
    · have hx : x.1 = !i := Bool.eq_not_of_ne hx
      have hi : (!x.1) = i := by rw [hx, Bool.not_not]
      rw [← hx] at hr ⊢
      rw [readsAfter_self, hi]
      obtain ⟨hI', ha'⟩ := hr.step hI
      have hother : (p.step (fun _ => h) x).thread i = p.thread i := by rw [← hi]; exact step_other x
      have hboth : I ((o.or (f v)).getD v) (p.run (fun _ => h) (x :: xs)).world ∨
          I (((f v).or o).getD v) (p.run (fun _ => h) (x :: xs)).world := by
        obtain ⟨j, hj⟩ := both_read (p := p.step (fun _ => h) x) (o := fun j => if j = i then o else f v)
          (fun j => by
            by_cases hj : j = i
            · subst hj; rw [if_pos rfl, hother]; exact ha
            · rw [if_neg hj, Bool.eq_not_of_ne hj, ← hx]; exact ha') hI' hd
        rw [Pool.run_cons]
        by_cases e : j = i
        · subst e; exact .inl (by simpa using hj)
        · rw [Bool.eq_not_of_ne e] at hj; exact .inr (by simpa using hj)
      refine ⟨fun he => ?_, fun _ => hboth⟩
      rw [ha.of_ended he] at hboth ⊢
      simpa using hboth

/-- Two clients that each read the value and write back what they make of it,
in a schedule at whose end both have ended. -/
theorem two_clients {f : Bool → V → Option V} {sched : List (Bool × Unit)}
    (hr : ∀ i, Reads h I (f i) (p.thread i)) (hI : I v p.world)
    (hd : ∀ i, Ended ((p.run (fun _ => h) sched).thread i)) :
    ((∃ i, ReadsAfter h p sched i) →
      ∃ i, I ((f i ((f (!i) v).getD v)).getD ((f (!i) v).getD v)) (p.run (fun _ => h) sched).world) ∧
    ((¬ ∃ i, ReadsAfter h p sched i) →
      ∃ i, I (((f i v).or (f (!i) v)).getD v) (p.run (fun _ => h) sched).world) := by
  cases sched with
  | nil => exact absurd (hd true) (hr true).not_ended
  | cons x xs =>
    obtain ⟨hI', ha⟩ := (hr x.1).step hI
    have hr' : Reads h I (f !x.1) ((p.step (fun _ => h) x).thread !x.1) := by rw [step_other]; exact hr _
    obtain ⟨hs, ho⟩ := one_read ha hr' hI' hd
    -- the first to read does not read after the other
    have hfirst : (∃ i, ReadsAfter h p (x :: xs) i) ↔ ReadsAfter h (p.step (fun _ => h) x) xs !x.1 := by
      rw [← readsAfter_other (by simp)]
      refine ⟨fun ⟨i, hi⟩ => ?_, fun hi => ⟨_, hi⟩⟩
      by_cases e : i = x.1
      · subst e
        exact absurd (readsAfter_self.mp hi) (hr _).not_ended
      · rw [Bool.eq_not_of_ne e] at hi
        exact hi
    rw [hfirst, Pool.run_cons]
    refine ⟨fun hi => ⟨!x.1, ?_⟩, fun hi => ?_⟩
    · rw [Bool.not_not]
      exact hs hi
    · rcases ho hi with h' | h'
      · exact ⟨x.1, h'⟩
      · exact ⟨!x.1, by rw [Bool.not_not]; exact h'⟩

end Effect
