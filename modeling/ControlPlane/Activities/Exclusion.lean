import ControlPlane.Lib.Pool
import ControlPlane.Activities.Idempotency

/-!
# Attempts that overlap

Attempts at one key that run at the same time, in any interleaving, as when
one overruns its timeout and the next starts. `Race` is the table and what is
seen of the attempts: what each one's record read answered, which one claimed
the key, and which ones have entered `perform` and are inside it.

`runOnce` does not keep two of them out of `perform` (`runOnce_overlap`): a
retry that reads a pending record performs again, by design. What it keeps is
`runOnce_exclusion`: of the attempts that found no record, at most one ever
enters.
-/

namespace ControlPlane

open Effect Effect.Prog

variable {ι V D : Type} {U : Sig}

/-- The start and the end of `perform`. -/
inductive Mark
  | start
  | finish

def Marks : Sig := ⟨Mark, fun _ => Unit⟩

def mark (m : Mark) : Activity (U.sum Marks) Unit := provider (inr (op m))

/-- A `perform` whose start and end are seen. -/
def watched (perform : String → Prog U Raised Attrs) (idempotencyKey : String) : Activity (U.sum Marks) Attrs := do
  mark .start
  let result ← provider (inl (perform idempotencyKey))
  mark .finish
  return result

/-- The world the attempts run in. -/
structure Race (ι V : Type) where
  table : Table
  /-- What the rest of the world is to the performing. -/
  env : V
  /-- What an attempt's record read answered. -/
  saw : ι → Option (Option Attrs) := fun _ => none
  /-- The attempt whose claim went through. -/
  claimant : Option ι := none
  entered : ι → Bool := fun _ => false
  inside : ι → Bool := fun _ => false

/-- What is seen of attempt `i`'s table calls: its reads of the key's record,
and its claim. -/
def Race.see [DecidableEq ι] (key : String) (i : ι) : (o : DynamoOp) → o.Ans → Race ι V → Race ι V
  | .getItem k, row, w => if k = idempotencyKey key then { w with saw := Function.update w.saw i (some row) } else w
  | .putItem k _ _, (claimed : Bool), w =>
    if k = idempotencyKey key ∧ claimed = true then { w with claimant := some i } else w
  | _, _, w => w

def raceTable [DecidableEq ι] (key : String) (i : ι) : Handler Dynamo Raised (String × D) (Race ι V) := fun o _ w =>
  match dynamo id w.table o w.table with
  | .error e => .error e
  | .ok (a, t) => .ok (a, { w with table := t }.see key i o a)

def raceClock : Handler Clock Raised (String × D) (Race ι V) := fun _ c w => .ok (c.1, w)

/-- What performing calls changes its own part of the world alone. -/
def raceEnv (h : Handler U Raised D V) : Handler U Raised (String × D) (Race ι V) := fun o c w =>
  match h o c.2 w.env with
  | .error e => .error e
  | .ok (a, v) => .ok (a, { w with env := v })

def raceMarks [DecidableEq ι] (i : ι) : Handler Marks Raised (String × D) (Race ι V)
  | .start, _, w =>
    .ok ((), { w with entered := Function.update w.entered i true, inside := Function.update w.inside i true })
  | .finish, _, w => .ok ((), { w with inside := Function.update w.inside i false })

/-- The world of attempt `i`. -/
def raceWorld [DecidableEq ι] (key : String) (h : Handler U Raised D V) (i : ι) :
    Handler (Dynamo.sum (Clock.sum (U.sum Marks))) Raised (String × D) (Race ι V) :=
  (raceTable key i).sum (raceClock.sum ((raceEnv h).sum (raceMarks i)))

/-! ## What every step keeps -/

/-- What an attempt's record read gave. -/
def Saw (i : ι) (w : Race ι V) : Option IdempotencyRecord → Prop
  | none => w.saw i = some none
  | some record => ∃ row, w.saw i = some (some row) ∧ ofItem IdempotencyRecord.ofKwargs row = .ok record

/-- Who has claimed the key, and what those that entered had read. -/
structure RaceInv (key : String) (w : Race ι V) : Prop where
  claimed : ∀ i, w.claimant = some i → (w.table.lookup (idempotencyKey key)).isSome
  first : ∀ i, w.entered i = true → w.saw i = some none → w.claimant = some i
  retry : ∀ i, w.entered i = true → ∃ e, Saw i w e ∧ replayed e = none
  inside : ∀ i, w.inside i = true → w.entered i = true

/-- What attempt `i` leaves to the others. -/
structure Leaves (i : ι) (w w' : Race ι V) : Prop where
  saw : ∀ j, j ≠ i → w'.saw j = w.saw j
  entered : ∀ j, j ≠ i → w'.entered j = w.entered j
  claimant : ∀ j, w.claimant = some j → w'.claimant = some j

/-- What attempt `i` relies on. -/
structure Relies (i : ι) (w w' : Race ι V) : Prop where
  saw : w'.saw i = w.saw i
  entered : w'.entered i = w.entered i
  claimant : w.claimant = some i → w'.claimant = some i

variable {k : String} {i : ι} {w w' : Race ι V}

theorem Saw.congr {e : Option IdempotencyRecord} (h : Saw i w e) (hs : w'.saw i = w.saw i) : Saw i w' e := by
  cases e with
  | none => exact hs.trans h
  | some record =>
    obtain ⟨row, hr, ho⟩ := h
    exact ⟨row, hs.trans hr, ho⟩

theorem raceTable_ok [DecidableEq ι] {o : DynamoOp} {c : String × D} {a : o.Ans} (h : raceTable k i o c w = .ok (a, w')) :
    ∃ t, dynamo id w.table o w.table = .ok (a, t) ∧ w' = { w with table := t }.see k i o a := by
  simp only [raceTable] at h
  split at h
  · cases h
  · rename_i a t ht
    cases h
    exact ⟨t, ht, rfl⟩

/-- Calls that neither read nor claim the key's record, nor delete it. -/
def Quiet (key : String) : DynamoOp → Prop
  | .getItem k => k ≠ idempotencyKey key
  | .putItem k _ _ => k ≠ idempotencyKey key
  | .deleteItem k => k ≠ idempotencyKey key
  | _ => True

/-- Quiet calls change the table alone, and keep the record. -/
theorem quiet_ok [DecidableEq ι] {o : DynamoOp} {c : String × D} {a : o.Ans} (hq : Quiet k o)
    (h : raceTable k i o c w = .ok (a, w')) : ∃ t, w' = { w with table := t } ∧
      ((w.table.lookup (idempotencyKey k)).isSome → (t.lookup (idempotencyKey k)).isSome) := by
  obtain ⟨t, ht, rfl⟩ := raceTable_ok h
  refine ⟨t, ?_, fun hs => ?_⟩
  · cases o with
    | getItem k₁ => exact if_neg hq
    | putItem k₁ attrs ifAbsent => exact if_neg fun e => hq e.1
    | _ => rfl
  · by_cases hw : o.writes = some (idempotencyKey k)
    · cases o with
      | putItem k₁ attrs ifAbsent => exact absurd (Option.some.inj hw) hq
      | deleteItem k₁ => exact absurd (Option.some.inj hw) hq
      | updateItem k₁ set ifPresent =>
        cases hw
        obtain ⟨set', -, ⟨-, rfl, -⟩ | ⟨-, rfl, -⟩⟩ := dynamo_update ht
        · exact hs
        · rw [AList.lookup_insert]; rfl
      | _ => cases hw
    · rw [dynamo_frame ht hw]; exact hs

/-- A change to the table that keeps the record is one like no other's. -/
theorem RaceInv.table (hI : RaceInv k w) {t : Table}
    (ht : (w.table.lookup (idempotencyKey k)).isSome → (t.lookup (idempotencyKey k)).isSome) :
    RaceInv k { w with table := t } ∧ Leaves i w { w with table := t } :=
  ⟨⟨fun j hj => ht (hI.claimed j hj), hI.first, hI.retry, hI.inside⟩, fun _ _ => rfl, fun _ _ => rfl, fun _ h => h⟩

/-! ## What an attempt does -/

theorem quiet_getKillSwitch : Calls (Quiet k) getKillSwitch :=
  (calls_getRow (killSwitchKey_ne k) _).bind fun _ => trivial

theorem quiet_putKillSwitch (setting : KillSwitch) : Calls (Quiet k) (putKillSwitch setting) :=
  ⟨killSwitchKey_ne k, fun _ => trivial⟩

theorem quiet_complete (result : Attrs) : Calls (Quiet k) (completeIdempotencyRecord k result) :=
  ⟨trivial, fun _ => trivial⟩

variable {h : Handler U Raised D V} {namePrefix : String} {info : Info}

/-- `perform` itself changes nothing that is seen. -/
theorem env_guarded {α : Type} (p : Prog U Raised α) :
    Guarded (raceEnv (ι := ι) h) (RaceInv k) (Relies i) (Leaves i) (fun _ _ => True) p w := by
  refine (Guarded.of_calls (P := fun _ => True) (A := fun _ => True) (fun _ _ _ _ => trivial) ?_ ?_ trivial)
  · intro o c w a w' _ hI _ hc
    simp only [raceEnv] at hc
    split at hc
    · cases hc
    · cases hc
      exact ⟨⟨hI.claimed, hI.first, hI.retry, hI.inside⟩, trivial, fun _ _ => rfl, fun _ _ => rfl, fun _ h => h⟩
  · exact calls_true p

theorem now_guarded {A : Race ι V → Prop} (hA : ∀ w w', A w → Relies i w w' → A w') (hw : A w) :
    Guarded (raceClock (D := D)) (RaceInv k) (Relies i) (Leaves i) (fun _ w => A w) (op (S := Clock) ()) w := by
  intro w₁ hR hI c a w₂ h
  cases h
  exact ⟨hI, ⟨fun _ _ => rfl, fun _ _ => rfl, fun _ h => h⟩, hA _ _ hw hR⟩

variable [DecidableEq ι]

theorem quiet_guarded {A : Race ι V → Prop} (hA : ∀ w w', A w → Relies i w w' → A w')
    (ht : ∀ w t, A w → A { w with table := t }) {α : Type} {p : Repo α} (hp : Calls (Quiet k) p) (hw : A w) :
    Guarded (raceTable (D := D) k i) (RaceInv k) (Relies i) (Leaves i) (fun _ w => A w) p w := by
  refine Guarded.of_calls hA (fun o c w a w' hq hI hA hc => ?_) hp hw
  obtain ⟨t, rfl, hs⟩ := quiet_ok hq hc
  exact ⟨(hI.table (i := i) hs).1, ht w t hA, (hI.table hs).2⟩

/-- The record read: an attempt that has not entered sees what it answers. -/
theorem read_guarded (hw : w.entered i = false) :
    Guarded (raceTable (D := D) k i) (RaceInv k) (Relies i) (Leaves i)
      (fun e w => Saw i w e ∧ w.entered i = false) (getIdempotencyRecord k) w := by
  unfold getIdempotencyRecord
  rw [getRow_eq]
  intro w₁ hR hI c row w₂ hc
  have he : w₁.entered i = false := hR.entered.trans hw
  obtain ⟨t, ht, rfl⟩ := raceTable_ok hc
  cases ht
  simp only [Race.see, if_true]
  refine ⟨⟨hI.claimed, fun j hj hs => ?_, fun j hj => ?_, hI.inside⟩,
    ⟨fun j hj => Function.update_of_ne hj _ _, fun _ _ => rfl, fun _ h => h⟩, ?_⟩
  · have hne : j ≠ i := fun e => by rw [e, he] at hj; cases hj
    exact hI.first j hj ((Function.update_of_ne hne _ _).symm.trans hs)
  · have hne : j ≠ i := fun e => by rw [e, he] at hj; cases hj
    obtain ⟨e, hs, hn⟩ := hI.retry j hj
    exact ⟨e, hs.congr (Function.update_of_ne hne _ _), hn⟩
  · cases w₁.table.lookup (idempotencyKey k) with
    | none => exact ⟨Function.update_self .., he⟩
    | some row =>
      refine Guarded.bind ?_
      cases hr : ofItem IdempotencyRecord.ofKwargs row with
      | error e => trivial
      | ok record => exact ⟨⟨row, Function.update_self .., hr⟩, he⟩

/-- The claim: at most one attempt's goes through. -/
theorem claim_guarded {e : Option IdempotencyRecord} (hs : Saw i w e) (createdAt : String) :
    Guarded (raceTable (D := D) k i) (RaceInv k) (Relies i) (Leaves i)
      (fun claimed w => Saw i w e ∧ (claimed = true → w.claimant = some i)) (claimIdempotencyKey k createdAt) w := by
  unfold claimIdempotencyKey
  cases expiresAt createdAt with
  | error e => trivial
  | ok ttl =>
    intro w₁ hR hI c claimed w₂ hc
    have hs₁ := hs.congr hR.saw
    obtain ⟨t, ht, rfl⟩ := raceTable_ok hc
    obtain ⟨row, -, ⟨rfl, rfl, -⟩ | ⟨rfl, rfl, hn⟩⟩ := dynamo_put ht
    · simp only [Race.see, Bool.false_eq_true, and_false, if_false]
      exact ⟨hI, ⟨fun _ _ => rfl, fun _ _ => rfl, fun _ h => h⟩, hs₁, fun h => nomatch h⟩
    · have hno : ∀ j, w₁.claimant ≠ some j := fun j hj => by
        have := hI.claimed j hj
        rw [hn rfl] at this
        cases this
      simp only [Race.see, and_self, if_true]
      refine ⟨⟨fun j _ => ?_, fun j hj h => absurd (hI.first j hj h) (hno j), hI.retry, hI.inside⟩,
        ⟨fun _ _ => rfl, fun _ _ => rfl, fun j h => absurd h (hno j)⟩, ?_, fun _ => rfl⟩
      · exact Option.isSome_iff_exists.mpr ⟨row, AList.lookup_insert _⟩
      · exact hs₁.congr rfl

/-- The start of `perform`, by an attempt that claimed the key or that read a
record not to replay. -/
theorem start_guarded {e : Option IdempotencyRecord} (hs : Saw i w e) (hn : replayed e = none)
    (hc : e = none → w.claimant = some i) :
    Guarded (raceMarks (D := D) i) (RaceInv k) (Relies i) (Leaves i) (fun _ _ => True) (op (S := Marks) .start) w := by
  intro w₁ hR hI c a w₂ h
  cases h
  have hs₁ := hs.congr hR.saw
  refine ⟨⟨hI.claimed, fun j hj hsaw => ?_, fun j hj => ?_, fun j hj => ?_⟩,
    ⟨fun _ _ => rfl, fun j hj => Function.update_of_ne hj _ _, fun _ h => h⟩, trivial⟩
  · by_cases hji : j = i
    · subst hji
      cases e with
      | none => exact hR.claimant (hc rfl)
      | some record =>
        obtain ⟨row, hr, -⟩ := hs₁
        cases hr.symm.trans hsaw
    · exact hI.first j ((Function.update_of_ne hji _ _).symm.trans hj) hsaw
  · by_cases hji : j = i
    · subst hji
      exact ⟨e, hs₁.congr rfl, hn⟩
    · obtain ⟨e', hs', hn'⟩ := hI.retry j ((Function.update_of_ne hji _ _).symm.trans hj)
      exact ⟨e', hs'.congr rfl, hn'⟩
  · by_cases hji : j = i
    · subst hji
      exact Function.update_self ..
    · exact (Function.update_of_ne hji _ _).trans (hI.inside j ((Function.update_of_ne hji _ _).symm.trans hj))

/-- The end of `perform`. -/
theorem finish_guarded : Guarded (raceMarks (D := D) i) (RaceInv k) (Relies i) (Leaves i) (fun _ _ => True)
    (op (S := Marks) .finish) w := by
  intro w₁ hR hI c a w₂ h
  cases h
  refine ⟨⟨hI.claimed, hI.first, hI.retry, fun j hj => ?_⟩, ⟨fun _ _ => rfl, fun _ _ => rfl, fun _ h => h⟩, trivial⟩
  by_cases hji : j = i
  · subst hji
    exact nomatch (Function.update_self ..).symm.trans hj
  · exact hI.inside j ((Function.update_of_ne hji _ _).symm.trans hj)

theorem maybeKill_guarded {perform : Handler (U.sum Marks) Raised (String × D) (Race ι V)} :
    Guarded ((raceTable k i).sum (raceClock.sum perform)) (RaceInv k) (Relies i) (Leaves i) (fun _ _ => True)
      maybeKill w := by
  have quiet : ∀ {α : Type} {p : Repo α} {w}, Calls (Quiet k) p →
      Guarded (raceTable (D := D) (V := V) k i) (RaceInv k) (Relies i) (Leaves i) (fun _ _ => True) p w :=
    fun hp => quiet_guarded (A := fun _ => True) (fun _ _ _ _ => trivial) (fun _ _ _ => trivial) hp trivial
  refine Guarded.bind ((quiet quiet_getKillSwitch).inl.mono fun s w _ => ?_)
  split
  · exact Guarded.bind ((quiet (quiet_putKillSwitch _)).inl.mono fun _ w _ => trivial)
  · trivial

/-- An attempt, from its start, whatever the others do. -/
theorem runOnce_guarded (perform : String → Prog U Raised Attrs) (hw : w.entered i = false) :
    Guarded (raceWorld (key namePrefix info) h i) (RaceInv (key namePrefix info)) (Relies i) (Leaves i)
      (fun _ _ => True) (runOnce namePrefix info (watched perform)) w := by
  refine Guarded.bind ((read_guarded hw).inl.mono fun e w hs => ?_)
  split
  · trivial
  · rename_i hn
    refine Guarded.bind ((Guarded.inr (Guarded.inl (now_guarded (A := fun w => Saw i w e)
      (fun w w' h hR => h.congr hR.saw) hs.1))).mono fun createdAt w hs => ?_)
    refine Guarded.bind ((claim_guarded hs createdAt).inl.mono fun claimed w hc => ?_)
    split
    · trivial
    · rename_i hf
      refine Guarded.bind (Guarded.bind ((Guarded.inr (Guarded.inr (Guarded.inr (start_guarded hc.1 hn
        fun he => hc.2 ?_)))).mono fun _ w _ => ?_))
      · subst he
        simpa using hf
      · refine Guarded.bind ((Guarded.inr (Guarded.inr (Guarded.inl (env_guarded _)))).mono fun result w _ => ?_)
        refine Guarded.bind ((Guarded.inr (Guarded.inr (Guarded.inr finish_guarded))).mono fun _ w _ => ?_)
        refine Guarded.bind ((maybeKill_guarded).mono fun _ w _ => ?_)
        exact Guarded.bind ((quiet_guarded (A := fun _ => True) (fun _ _ _ _ => trivial) (fun _ _ _ => trivial)
          (quiet_complete result) trivial).inl.mono fun _ w _ => trivial)

/-- However the attempts at a key interleave: of those whose record read found
none, at most one ever enters `perform`; any other that enters has read a
record that is not one to replay. -/
theorem runOnce_exclusion (namePrefix : String) (info : Info) (perform : ι → String → Prog U Raised Attrs)
    (h : Handler U Raised D V) (table : Table) (env : V) (sched : List (ι × String × D)) :
    let w := (Pool.run (raceWorld (key namePrefix info) h)
      ⟨{ table, env }, fun i => runOnce namePrefix info (watched (perform i))⟩ sched).world
    (∀ i, w.inside i = true → w.entered i = true) ∧
      (∀ i j, w.entered i = true → w.entered j = true → w.saw i = some none → w.saw j = some none → i = j) ∧
        ∀ i, w.entered i = true → w.saw i = some none ∨ ∃ row record, w.saw i = some (some row) ∧
          ofItem IdempotencyRecord.ofKwargs row = .ok record ∧ replayed (some record) = none := by
  have hI : RaceInv (key namePrefix info) (Pool.run (raceWorld (key namePrefix info) h)
      ⟨{ table, env }, fun i => runOnce namePrefix info (watched (perform i))⟩ sched).world :=
    (Pool.run_guarded (R := Relies) (G := Leaves) (fun _ _ => ⟨rfl, rfl, id⟩)
      (fun _ _ _ _ h₁ h₂ => ⟨h₂.saw.trans h₁.saw, h₂.entered.trans h₁.entered, fun h => h₂.claimant (h₁.claimant h)⟩)
      (fun i j _ _ hij hl => ⟨hl.saw j (Ne.symm hij), hl.entered j (Ne.symm hij), hl.claimant j⟩)
      ⟨⟨fun _ h => (nomatch h), fun _ h => (nomatch h), fun _ h => (nomatch h), fun _ h => (nomatch h)⟩,
        fun i => runOnce_guarded (perform i) rfl⟩ sched).world
  refine ⟨hI.inside, fun i j hi hj si sj => ?_, fun i hi => ?_⟩
  · exact Option.some.inj ((hI.first i hi si).symm.trans (hI.first j hj sj))
  · obtain ⟨e, hs, hn⟩ := hI.retry i hi
    cases e with
    | none => exact .inl hs
    | some record =>
      obtain ⟨row, hr, ho⟩ := hs
      exact .inr ⟨row, record, hr, ho, hn⟩

/-- Two attempts inside `perform` at once: the second one's read found the
record of the first one's claim, pending. -/
theorem runOnce_overlap :
    let attempt : Bool → Activity (Sig.sum ⟨Empty, nofun⟩ Marks) (Attrs × Bool) := fun _ =>
      runOnce "payment" ⟨"job", "4"⟩ (watched fun _ => done [("confirmation_id", .str "conf-payment-job-4")])
    let w := (Pool.run (raceWorld (key "payment" ⟨"job", "4"⟩) nofun) ⟨{ table := ∅, env := () }, attempt⟩
      ((List.replicate 4 false ++ List.replicate 4 true).map fun i => (i, "2026-09-02T14:02:00+00:00", ()))).world
    w.inside false = true ∧ w.inside true = true := by decide +kernel

end ControlPlane
