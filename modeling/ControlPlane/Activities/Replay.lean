import ControlPlane.Activities.Exclusion
import ControlPlane.Registry.ByValue

/-!
# Attempts after a completion

What the attempts at a key do once one of them has recorded its completion
(`CompletedRow`), in any interleaving: their record read decides, as the row
is read whole or not at all. `runOnce_replays_iff`: they all replay the
result (`Replays`) exactly if it is not empty, which `existing.result` takes
for no result, and its numbers are kept (`keepsDict`).
-/

namespace ControlPlane

open Effect Effect.Prog

variable {ι V D : Type} {U : Sig}

/-! ## The row of a completed record -/

/-- The row a completion with `result` leaves, where the record could be read
before; `stored` is the result as the table holds it. -/
structure CompletedRow (result stored row : Attrs) : Prop where
  status : row.lookup "status" = some (.str "completed")
  serialized : serializeDict (toDecimalDict result) = some stored
  holds : row.lookup "result" = some (.dict stored)
  reads : (fromDecimalDict stored).isSome → ∃ record, ofItem IdempotencyRecord.ofKwargs row = .ok record

variable {result stored row : Attrs}

/-- A record is read from a dict that has its fields. -/
theorem record_ofKwargs {kw : Attrs} {key status createdAt : String} {r : Option Attrs}
    (hk : kw.lookup "key" = some (.str key)) (hs : kw.lookup "status" = some (.str status))
    (hr : fieldD kw "result" none (asOption asDict) = some r) (hc : kw.lookup "created_at" = some (.str createdAt)) :
    IdempotencyRecord.ofKwargs kw = .ok { key, status, result := r, createdAt } := by
  simp [IdempotencyRecord.ofKwargs, construct, IdempotencyRecord.required, field, hk, hs, hr, hc, asStr]

/-- The instant a claim expires at is one the table reads back. -/
theorem expiresAt_bound {createdAt : String} {ttl : ℤ} (h : expiresAt createdAt = .ok ttl) :
    ttl.natAbs < 10 ^ 28 := by
  unfold expiresAt at h
  split at h
  · rename_i t ht
    obtain ⟨hlo, hhi⟩ := fromisoformat_bound ht
    cases h
    rw [Int.natAbs_tdiv, idempotencyTtlDays]
    refine (Nat.div_le_self _ _).trans_lt ?_
    omega
  · cases h

/-- A claim's row can be read. -/
theorem claim_reads {key createdAt : String} {ttl : ℤ} (ht : expiresAt createdAt = .ok ttl)
    (hs : serializeDict (claimItem key createdAt ttl) = some row) :
    ∃ record, ofItem IdempotencyRecord.ofKwargs row = .ok record := by
  have hbound := expiresAt_bound ht
  obtain ⟨v, hv, hrow⟩ : ∃ v, serialize (.int ttl) = some v ∧
      row = [("key", .str key), ("status", .str "pending"), ("result", .null), ("created_at", .str createdAt),
        ("ttl", v)] := by
    simp only [claimItem, serializeDict] at hs
    cases hv : serialize (.int ttl) with
    | none => rw [hv] at hs; cases hs
    | some v => rw [hv] at hs; cases hs; exact ⟨v, rfl, rfl⟩
  have hread : fromDecimal v = some (.int ttl) := by
    rw [serialize] at hv
    split at hv
    · cases hv
      exact numberOfDecimal_int hbound
    · cases hv
  have hkw : fromDecimalDict row = some (claimItem key createdAt ttl) := by
    simp only [hrow, fromDecimalDict, hread]
    rfl
  refine ⟨{ key, status := "pending", createdAt }, ?_⟩
  rw [ofItem, decode, hkw]
  show IdempotencyRecord.ofKwargs (claimItem key createdAt ttl) = _
  exact record_ofKwargs rfl rfl rfl rfl

/-- A completion of a record that can be read. -/
theorem completed_row {old set : Attrs} {record : IdempotencyRecord}
    (ho : ofItem IdempotencyRecord.ofKwargs old = .ok record) (hs : serializeDict (completion result) = some set) :
    ∃ stored, CompletedRow result stored (setAttrs set old) := by
  obtain ⟨stored, hstored, rfl⟩ : ∃ stored, serializeDict (toDecimalDict result) = some stored ∧
      set = [("status", .str "completed"), ("result", .dict stored)] := by
    simp only [completion, serializeDict, toDecimal, serialize] at hs
    cases hd : serializeDict (toDecimalDict result) with
    | none => rw [hd] at hs; cases hs
    | some stored => rw [hd] at hs; cases hs; exact ⟨stored, rfl, rfl⟩
  refine ⟨stored, by rw [setAttrs_lookup]; rfl, hstored, by rw [setAttrs_lookup]; rfl, fun hr => ?_⟩
  obtain ⟨kw₀, hf₀, hkey, -, -, hcreated⟩ := record_ofItem ho
  obtain ⟨r, hr⟩ := Option.isSome_iff_exists.mp hr
  -- the attributes that are not set could be read before
  have hwhole : (fromDecimalDict (setAttrs [("status", .str "completed"), ("result", .dict stored)] old)).isSome := by
    have hold := fromDecimalDict_isSome_iff.mp (by rw [hf₀]; rfl : (fromDecimalDict old).isSome)
    refine fromDecimalDict_isSome_iff.mpr fun kv hkv => ?_
    rcases List.mem_append.mp hkv with hset | hkept
    · rcases List.mem_pair.mp hset with rfl | rfl
      · rfl
      · rw [fromDecimal, hr]
        rfl
    · exact hold kv (List.mem_of_mem_filter hkept)
  obtain ⟨kw, hf⟩ := Option.isSome_iff_exists.mp hwhole
  have hat (name : String) : kw.lookup name = (List.lookup name [("status", .str "completed"),
      ("result", .dict stored)]).or (old.lookup name) >>= fromDecimal := by
    rw [fromDecimalDict_lookup hf, setAttrs_lookup]
  have hat₀ (name : String) : old.lookup name >>= fromDecimal = kw₀.lookup name :=
    (fromDecimalDict_lookup hf₀ name).symm
  refine ⟨{ key := record.key, status := "completed", result := some r, createdAt := record.createdAt }, ?_⟩
  rw [ofItem, decode, hf]
  refine record_ofKwargs ?_ (hat "status") ?_ ?_
  · exact (hat "key").trans ((hat₀ "key").trans hkey)
  · have hresult : kw.lookup "result" = some (.dict r) := by
      rw [hat "result"]
      show (fromDecimalDict stored).map Value.dict = _
      rw [hr]
      rfl
    rw [fieldD, hresult]
    rfl
  · exact (hat "created_at").trans ((hat₀ "created_at").trans hcreated)

/-- Reading the row: the record with the result read back, or an exception. -/
theorem CompletedRow.read (h : CompletedRow result stored row) :
    (fromDecimalDict stored = none ∧ ∃ e, ofItem IdempotencyRecord.ofKwargs row = .error e) ∨
      ∃ kw record, fromDecimalDict stored = some kw ∧ ofItem IdempotencyRecord.ofKwargs row = .ok record ∧
        replayed (some record) = if kw.isEmpty then none else some kw := by
  cases hd : fromDecimalDict stored with
  | none =>
    refine .inl ⟨rfl, .invalidOperation, ?_⟩
    have hnone : fromDecimalDict row = none := by
      by_contra hne
      obtain ⟨kw, hf⟩ := Option.ne_none_iff_exists'.mp hne
      have hs := fromDecimalDict_isSome hf "result"
      rw [fromDecimalDict_lookup hf, h.holds, Option.bind_eq_bind, Option.bind_some, fromDecimal, hd] at hs
      cases hs
    rw [ofItem, decode, hnone]
    rfl
  | some kw =>
    obtain ⟨record, ho⟩ := h.reads (by rw [hd]; rfl)
    obtain ⟨kw', ⟨stored', hs', hd'⟩, hr⟩ := replayed_of_completed h.status h.serialized h.holds ho
    cases hs'.symm.trans h.serialized
    cases hd'.symm.trans hd
    exact .inr ⟨kw, record, rfl, ho, hr⟩

/-! ## What an attempt records -/

/-- The key's record can be read. -/
def Readable (key : String) (t : Table) : Prop :=
  ∃ row record, t.lookup (idempotencyKey key) = some row ∧ ofItem IdempotencyRecord.ofKwargs row = .ok record

/-- The key's record is completed with the result. -/
def CompletedWith (key : String) (result : Attrs) (t : Table) : Prop :=
  ∃ stored row, t.lookup (idempotencyKey key) = some row ∧ CompletedRow result stored row

section

variable [DecidableEq ι] {k : String} {i : ι} {w : Race ι V} {h : Handler U Raised D V}

theorem see_table {o : DynamoOp} (a : o.Ans) : (w.see k i o a).table = w.table := by
  cases o with
  | getItem k₁ =>
    simp only [Race.see]
    split <;> rfl
  | putItem k₁ attrs ifAbsent =>
    simp only [Race.see]
    split <;> rfl
  | _ => rfl

theorem raceTable_table {o : DynamoOp} {c : String × D} {a : o.Ans} {w' : Race ι V}
    (hc : raceTable k i o c w = .ok (a, w')) : dynamo id w.table o w.table = .ok (a, w'.table) := by
  obtain ⟨t, ht, rfl⟩ := raceTable_ok hc
  rw [see_table]
  exact ht

/-- Calls that write other rows. -/
theorem frame_safe {α : Type} {p : Repo α} (hp : Calls (S := Dynamo) (fun o => o.writes ≠ some (idempotencyKey k)) p)
    (hw : Readable k w.table) : Safe (raceTable (D := D) k i) (fun _ => True) (fun _ w => Readable k w.table) p w := by
  refine (Safe.of_calls (I := fun w : Race ι V => Readable k w.table) (fun o c w a w' ho hI hc => ?_) hp hw).weaken
    fun _ _ => trivial
  obtain ⟨row, record, hr, hread⟩ := hI
  exact ⟨row, record, (dynamo_frame (raceTable_table hc) ho).trans hr, hread⟩

theorem read_readable (w : Race ι V) : Safe (raceTable (D := D) k i) (fun _ => True)
    (fun existing w => existing.isSome → Readable k w.table) (getIdempotencyRecord k) w := by
  rw [getIdempotencyRecord, getRow_eq]
  refine ⟨trivial, fun c item w' hc => ?_⟩
  have ht := raceTable_table hc
  rcases item with - | row
  · exact fun hn => nomatch hn
  · refine Safe.bind (Safe.ofExcept trivial fun record hread _ => ⟨row, record, ?_, hread⟩)
    injection ht with ht
    injection ht with hrow htable
    rw [← htable]
    exact hrow

theorem claim_readable {existing : Option IdempotencyRecord} (createdAt : String)
    (hw : existing.isSome → Readable k w.table) : Safe (raceTable (D := D) k i) (fun _ => True)
      (fun claimed w => (!claimed && existing.isNone) = false → Readable k w.table)
      (claimIdempotencyKey k createdAt) w := by
  unfold claimIdempotencyKey
  cases ht : expiresAt createdAt with
  | error e => trivial
  | ok ttl =>
    refine ⟨trivial, fun c claimed w' hc hgo => ?_⟩
    obtain ⟨row, hs, ⟨rfl, htable, -⟩ | ⟨rfl, htable, -⟩⟩ := dynamo_put (raceTable_table hc)
    · rw [htable]
      refine hw ?_
      cases existing with
      | none => cases hgo
      | some record => rfl
    · obtain ⟨record, hread⟩ := claim_reads ht hs
      exact ⟨row, record, by rw [htable, AList.lookup_insert], hread⟩

theorem watched_readable (perform : String → Prog U Raised Attrs) (hw : Readable k w.table) :
    Safe (raceWorld k h i) (fun _ => True) (fun _ w => Readable k w.table) (watched perform k) w := by
  have hmark (m : Mark) {w : Race ι V} (hw : Readable k w.table) :
      Safe (raceWorld k h i) (fun _ => True) (fun _ w => Readable k w.table) (mark m) w := by
    refine ⟨trivial, fun c a w' hc => ?_⟩
    cases m <;> cases hc <;> exact hw
  have henv {w : Race ι V} (hw : Readable k w.table) :
      Safe (raceEnv h) (fun _ => True) (fun _ w => Readable k w.table) (perform k) w := by
    refine (Safe.of_calls (I := fun w : Race ι V => Readable k w.table) (fun o c w a w' _ hI hc => ?_)
      (calls_true _) hw).weaken fun _ _ => trivial
    simp only [raceEnv] at hc
    split at hc
    · cases hc
    · cases hc
      exact hI
  refine Safe.bind ((hmark .start hw).mono fun _ w hw => ?_)
  refine Safe.bind ((henv hw).inl.inr.inr.mono fun result w hw => ?_)
  exact Safe.bind ((hmark .finish hw).mono fun _ w hw => hw)

theorem maybeKill_readable (hw : Readable k w.table) :
    Safe (raceWorld k h i) (fun _ => True) (fun _ w => Readable k w.table) maybeKill w := by
  have hget : Calls (S := Dynamo) (fun o => o.writes ≠ some (idempotencyKey k)) getKillSwitch :=
    (calls_getRow nofun _).bind fun _ => trivial
  have hput (s : KillSwitch) : Calls (S := Dynamo) (fun o => o.writes ≠ some (idempotencyKey k)) (putKillSwitch s) :=
    ⟨fun e => killSwitchKey_ne k (Option.some.inj e), fun _ => trivial⟩
  refine Safe.bind ((frame_safe hget hw).inl.mono fun s w hw => ?_)
  split
  · exact Safe.bind ((frame_safe (hput _) hw).inl.mono fun _ w _ => trivial)
  · exact hw

theorem complete_completes (result : Attrs) (hw : Readable k w.table) : Safe (raceTable (D := D) k i) (fun _ => True)
    (fun _ w => CompletedWith k result w.table) (completeIdempotencyRecord k result) w := by
  refine ⟨trivial, fun c a w' hc => ?_⟩
  obtain ⟨row, record, hr, hread⟩ := hw
  obtain ⟨set, hs, ⟨-, -, hpresent, -⟩ | ⟨-, htable, -⟩⟩ := dynamo_update (raceTable_table hc)
  · cases hpresent
  · obtain ⟨stored, hrow⟩ := completed_row hread hs
    refine ⟨stored, _, ?_, hrow⟩
    rw [htable, AList.lookup_insert, hr]
    rfl

/-- An attempt that returns its own result has recorded it. -/
theorem runOnce_records (h : Handler U Raised D V) (namePrefix : String) (info : Info)
    (perform : String → Prog U Raised Attrs) (i : ι) (w : Race ι V) :
    Safe (raceWorld (key namePrefix info) h i) (fun _ => True)
      (fun a w => a.2 = false → CompletedWith (key namePrefix info) a.1 w.table)
      (runOnce namePrefix info (watched perform)) w := by
  refine Safe.bind ((read_readable w).inl.mono fun existing w hw => ?_)
  split
  · exact fun hreplayed => nomatch hreplayed
  · have hnow : Safe (raceWorld (key namePrefix info) h i) (fun _ => True)
        (fun _ w => existing.isSome → Readable (key namePrefix info) w.table) now w := by
      refine ⟨trivial, fun c a w' hc => ?_⟩
      cases hc
      exact hw
    refine Safe.bind (hnow.mono fun createdAt w hw => ?_)
    refine Safe.bind ((claim_readable createdAt hw).inl.mono fun claimed w hw => ?_)
    split
    · trivial
    · rename_i hgo
      refine Safe.bind ((watched_readable perform (hw (Bool.eq_false_of_not_eq_true hgo))).mono fun result w hw => ?_)
      refine Safe.bind ((maybeKill_readable hw).mono fun _ w hw => ?_)
      exact Safe.bind ((complete_completes result hw).inl.mono fun _ w hw _ => hw)

end

/-! ## What later attempts do -/

variable {T : Sig}

/-- An attempt once its claim is answered. -/
def afterClaim (namePrefix : String) (info : Info) (perform : String → Activity T Attrs)
    (existing : Option IdempotencyRecord) (claimed : Bool) : Activity T (Attrs × Bool) :=
  if !claimed && existing.isNone then
    fail (.applicationError (namePrefix ++ " already in flight for this key") none false)
  else do
    let result ← perform (key namePrefix info)
    maybeKill
    repo (completeIdempotencyRecord (key namePrefix info) result)
    return (result, false)

/-- An attempt once its record is read. -/
def afterRead (namePrefix : String) (info : Info) (perform : String → Activity T Attrs)
    (existing : Option IdempotencyRecord) : Activity T (Attrs × Bool) :=
  match replayed existing with
  | some result => done (result, true)
  | none => do
    let createdAt ← now
    repo (claimIdempotencyKey (key namePrefix info) createdAt) >>= afterClaim namePrefix info perform existing

/-- An attempt whose record's row is there. -/
def afterRow (namePrefix : String) (info : Info) (perform : String → Activity T Attrs) (row : Attrs) :
    Activity T (Attrs × Bool) :=
  Prog.ofExcept ((ofItem IdempotencyRecord.ofKwargs row).map some) >>= afterRead namePrefix info perform

theorem afterRow_error {namePrefix : String} {info : Info} {perform : String → Activity T Attrs} {e : Raised}
    (h : ofItem IdempotencyRecord.ofKwargs row = .error e) : afterRow namePrefix info perform row = fail e := by
  rw [afterRow, h]
  rfl

theorem afterRow_ok {namePrefix : String} {info : Info} {perform : String → Activity T Attrs}
    {record : IdempotencyRecord} (h : ofItem IdempotencyRecord.ofKwargs row = .ok record) :
    afterRow namePrefix info perform row = afterRead namePrefix info perform (some record) := by
  rw [afterRow, h]
  rfl

/-- An attempt reads its record, and the rest follows from that. -/
theorem runOnce_eq (namePrefix : String) (info : Info) (perform : String → Activity T Attrs) :
    runOnce namePrefix info perform =
      call (S := Dynamo.sum (Clock.sum T)) (.inl (.getItem (idempotencyKey (key namePrefix info)))) fun item =>
        Prog.ofExcept (readRow (ofItem IdempotencyRecord.ofKwargs) item) >>= afterRead namePrefix info perform := by
  rw [runOnce, getIdempotencyRecord, getRow_readRow]
  refine congrArg (call _) (funext fun item => ?_)
  show (ofExcept (readRow (ofItem IdempotencyRecord.ofKwargs) item)).inl >>= afterRead namePrefix info perform = _
  generalize readRow (ofItem IdempotencyRecord.ofKwargs) item = existing
  cases existing with
  | error e => rfl
  | ok existing => rfl

/-- Attempts at a key. -/
abbrev Attempts (U : Sig) (ι V : Type) := Pool (Dynamo.sum (Clock.sum (U.sum Marks))) Raised (Attrs × Bool) (Race ι V) ι

/-- Attempts that have yet to start. -/
def later (namePrefix : String) (info : Info) (perform : String → Prog U Raised Attrs) (table : Table) (env : V) :
    Attempts U ι V :=
  ⟨{ table, env }, fun _ => runOnce namePrefix info (watched perform)⟩

/-- Later attempts, in any interleaving: none enters `perform`, and each one
that has had enough steps has returned the recorded result. -/
def Replays [DecidableEq ι] (namePrefix : String) (info : Info) (perform : String → Prog U Raised Attrs)
    (h : Handler U Raised D V) (table : Table) (env : V) (result : Attrs) : Prop :=
  ∃ n, ∀ sched : List (ι × String × D),
    let p := (later namePrefix info perform table env).run (raceWorld (key namePrefix info) h) sched
    ∀ i, p.world.entered i = false ∧
      (n ≤ (sched.map Prod.fst).count i → ∃ r, p.thread i = done (r, true) ∧ sameDict r result = true)

section

variable [DecidableEq ι] {h : Handler U Raised D V} {namePrefix : String} {info : Info}
variable {perform : String → Prog U Raised Attrs}

/-- A later attempt's first step. -/
theorem first_step {p : Attempts U ι V} {x : ι × String × D}
    (ht : p.thread x.1 = runOnce namePrefix info (watched perform))
    (hrow : p.world.table.lookup (idempotencyKey (key namePrefix info)) = some row) :
    p.step (raceWorld (key namePrefix info) h) x =
      ⟨{ p.world with saw := Function.update p.world.saw x.1 (some (some row)) },
        Function.update p.thread x.1 (afterRow namePrefix info (watched perform) row)⟩ := by
  rw [runOnce_eq] at ht
  refine Pool.step_answered (a := some row) ht ?_
  simp only [raceWorld, Handler.sum, raceTable, dynamo, hrow, Race.see, if_true]
  rfl

/-- The attempts of a schedule that have had a step have replayed `r`. -/
structure Replaying (start : Activity (U.sum Marks) (Attrs × Bool)) (table : Table) (r : Attrs)
    (sched : List (ι × String × D)) (p : Attempts U ι V) : Prop where
  table : p.world.table = table
  entered : ∀ i, p.world.entered i = false
  thread : ∀ i, p.thread i = if i ∈ sched.map Prod.fst then done (r, true) else start

variable {table : Table} {record : IdempotencyRecord} {r : Attrs}

theorem run_replaying (h : Handler U Raised D V) (perform : String → Prog U Raised Attrs) (env : V)
    (hrow : table.lookup (idempotencyKey (key namePrefix info)) = some row)
    (ho : ofItem IdempotencyRecord.ofKwargs row = .ok record) (hr : replayed (some record) = some r)
    (sched : List (ι × String × D)) :
    Replaying (runOnce namePrefix info (watched perform)) table r sched
      ((later namePrefix info perform table env).run (raceWorld (key namePrefix info) h) sched) := by
  induction sched using List.reverseRecOn with
  | nil => exact ⟨rfl, fun _ => rfl, fun _ => rfl⟩
  | append_singleton xs x ih =>
    rw [Pool.run_snoc]
    generalize Pool.run (raceWorld (key namePrefix info) h) _ xs = p at ih ⊢
    have hx := ih.thread x.1
    by_cases hm : x.1 ∈ xs.map Prod.fst
    · -- it has returned
      rw [if_pos hm] at hx
      rw [Pool.step_ended (by rw [hx]; trivial)]
      refine ⟨ih.table, ih.entered, fun i => ?_⟩
      rw [ih.thread i]
      refine if_congr ?_ rfl rfl
      rw [List.map_append, List.mem_append]
      refine ⟨.inl, fun hi => hi.elim id fun hi => ?_⟩
      rw [List.mem_singleton.mp hi]
      exact hm
    · rw [if_neg hm] at hx
      rw [first_step hx (by rw [ih.table]; exact hrow)]
      refine ⟨ih.table, ih.entered, fun i => ?_⟩
      by_cases hi : i = x.1
      · subst hi
        rw [if_pos (by simp)]
        show Function.update p.thread x.1 _ x.1 = _
        rw [Function.update_self, afterRow_ok ho, afterRead, hr]
      · show Function.update p.thread x.1 _ i = _
        rw [Function.update_of_ne hi, ih.thread i]
        refine if_congr ?_ rfl rfl
        simp [hi]

/-- The clock's answer. -/
theorem now_step (h : Handler U Raised D V) (k createdAt : String) (d : D) {p : Attempts U ι V} {i : ι}
    {rest : String → Activity (U.sum Marks) (Attrs × Bool)} (ht : p.thread i = now >>= rest) :
    (p.step (raceWorld k h) (i, createdAt, d)).thread i = rest createdAt ∧
      (p.step (raceWorld k h) (i, createdAt, d)).world = p.world := by
  have hcall : p.thread i = call (S := Dynamo.sum (Clock.sum (U.sum Marks))) (.inr (.inl ())) rest := ht
  rw [Pool.step_answered (x := (i, createdAt, d)) (a := createdAt) hcall rfl]
  exact ⟨Function.update_self .., rfl⟩

/-- A claim of a key whose record is there. -/
theorem claim_step (h : Handler U Raised D V) (c : String × D) {k createdAt : String} {ttl : ℤ} {attrs : Attrs}
    {p : Attempts U ι V} {i : ι} {rest : Bool → Activity (U.sum Marks) (Attrs × Bool)}
    (httl : expiresAt createdAt = .ok ttl) (hs : serializeDict (claimItem k createdAt ttl) = some attrs)
    (hrow : p.world.table.lookup (idempotencyKey k) = some row)
    (ht : p.thread i = repo (claimIdempotencyKey k createdAt) >>= rest) :
    (p.step (raceWorld k h) (i, c)).thread i = rest false ∧
      (p.step (raceWorld k h) (i, c)).world = p.world := by
  have hcall : p.thread i = call (S := Dynamo.sum (Clock.sum (U.sum Marks)))
      (.inl (.putItem (idempotencyKey k) (claimItem k createdAt ttl) true)) rest := by
    rw [ht, claimIdempotencyKey, httl]
    rfl
  have hanswer : raceWorld k h i (.inl (.putItem (idempotencyKey k) (claimItem k createdAt ttl) true)) c p.world =
      .ok (false, p.world) := by
    simp only [raceWorld, Handler.sum, raceTable, dynamo, hs, hrow, Option.isSome_some, Bool.and_self, if_true,
      Race.see, Bool.false_eq_true, and_false, if_false]
    rfl
  rw [Pool.step_answered (x := (i, c)) hcall hanswer]
  exact ⟨Function.update_self .., rfl⟩

/-- The start of `perform`. -/
theorem start_step {p : Attempts U ι V} {i : ι} {c : String × D} {k : String}
    {rest : Attrs → Activity (U.sum Marks) (Attrs × Bool)} (ht : p.thread i = watched perform k >>= rest) :
    (p.step (raceWorld k h) (i, c)).world.entered i = true := by
  have hcall : p.thread i = call (S := Dynamo.sum (Clock.sum (U.sum Marks))) (.inr (.inr (.inr .start))) fun _ =>
      (do let result ← provider (inl (perform k)); mark .finish; return result) >>= rest := ht
  rw [Pool.step_answered (x := (i, c)) (a := ()) hcall rfl]
  exact Function.update_self ..

/-- An attempt that has read a record not to replay enters `perform`, after its
claim. -/
theorem enters {p : Attempts U ι V} {i : ι} (d : D)
    (ht : p.thread i = afterRead namePrefix info (watched perform) (some record)) (hr : replayed (some record) = none)
    (hrow : p.world.table.lookup (idempotencyKey (key namePrefix info)) = some row) :
    (p.run (raceWorld (key namePrefix info) h)
      (List.replicate 3 (i, "2026-09-02T14:02:00+00:00", d))).world.entered i = true := by
  have httl : expiresAt "2026-09-02T14:02:00+00:00" = .ok 1790949720 := by decide +kernel
  have hstorable : (serialize (.int 1790949720)).isSome := by decide +kernel
  have hs : (serializeDict (claimItem (key namePrefix info) "2026-09-02T14:02:00+00:00" 1790949720)).isSome := by
    refine serializeDict_isSome_iff.mpr fun kv hkv => ?_
    simp only [claimItem, List.mem_cons, List.not_mem_nil, or_false] at hkv
    rcases hkv with rfl | rfl | rfl | rfl | rfl
    · rfl
    · rfl
    · rfl
    · rfl
    · exact hstorable
  obtain ⟨attrs, hs⟩ := Option.isSome_iff_exists.mp hs
  rw [afterRead, hr] at ht
  obtain ⟨ht₁, hw₁⟩ := now_step h (key namePrefix info) "2026-09-02T14:02:00+00:00" d ht
  obtain ⟨ht₂, hw₂⟩ := claim_step h ("2026-09-02T14:02:00+00:00", d) httl hs (by rw [hw₁]; exact hrow) ht₁
  exact start_step ht₂

theorem later_step (h : Handler U Raised D V) (perform : String → Prog U Raised Attrs) (env : V) (i : ι)
    (c : String × D) (hrow : table.lookup (idempotencyKey (key namePrefix info)) = some row) :
    let p := (later namePrefix info perform table env).step (raceWorld (key namePrefix info) h) (i, c)
    p.thread i = afterRow namePrefix info (watched perform) row ∧ p.world.table = table := by
  rw [first_step rfl hrow]
  exact ⟨Function.update_self .., rfl⟩

/-- An attempt that has ended with its first step stays so. -/
theorem first_step_ended (env : V) (i : ι) (c : String × D) (n : ℕ) {attempt : Activity (U.sum Marks) (Attrs × Bool)}
    (hrow : table.lookup (idempotencyKey (key namePrefix info)) = some row)
    (ha : afterRow namePrefix info (watched perform) row = attempt) (he : Ended attempt) :
    ((later namePrefix info perform table env).run (raceWorld (key namePrefix info) h)
      (List.replicate (n + 1) (i, c))).thread i = attempt := by
  have hthread := (later_step h perform env i c hrow).1.trans ha
  rw [List.replicate_succ, Pool.run_cons, Pool.run_ended (by rw [hthread]; exact he), hthread]

/-- Attempts that read a result to replay. -/
theorem replays_of_read {result : Attrs} (env : V)
    (hrow : table.lookup (idempotencyKey (key namePrefix info)) = some row)
    (ho : ofItem IdempotencyRecord.ofKwargs row = .ok record) (hr : replayed (some record) = some r)
    (hsame : sameDict r result = true) : Replays (ι := ι) namePrefix info perform h table env result := by
  refine ⟨1, fun sched i => ?_⟩
  have hreplaying := run_replaying h perform env hrow ho hr sched
  refine ⟨hreplaying.entered i, fun hcount => ⟨r, ?_, hsame⟩⟩
  rw [hreplaying.thread i, if_pos (List.count_pos_iff.mp hcount)]

/-- If all of them replay the result, the read gives it back, not empty. -/
theorem read_of_replays {env : V} {result stored : Attrs} (i : ι) (c : String × D)
    (hrow : table.lookup (idempotencyKey (key namePrefix info)) = some row) (hc : CompletedRow result stored row)
    (hreplays : Replays (ι := ι) namePrefix info perform h table env result) :
    ∃ kw, kw ≠ [] ∧ fromDecimalDict stored = some kw ∧ sameDict kw result = true := by
  obtain ⟨n, hn⟩ := hreplays
  have hcount : n ≤ ((List.replicate (n + 1) (i, c)).map Prod.fst).count i := by simp
  obtain ⟨r, hdone, hsame⟩ := (hn (List.replicate (n + 1) (i, c)) i).2 hcount
  obtain ⟨-, e, ho⟩ | ⟨kw, record, hd, ho, hr⟩ := hc.read
  · -- the read raises
    rw [first_step_ended env i c n hrow (afterRow_error ho) trivial] at hdone
    cases hdone
  rcases kw with - | ⟨kv, kws⟩
  · -- the read finds an empty result, and the attempt goes on to perform
    have hentered := (hn ((i, c) :: List.replicate 3 (i, "2026-09-02T14:02:00+00:00", c.2)) i).1
    obtain ⟨hthread, htable⟩ := later_step h perform env i c hrow
    rw [Pool.run_cons, enters c.2 (hthread.trans (afterRow_ok ho)) hr (by rw [htable]; exact hrow)] at hentered
    cases hentered
  · have hread : afterRow namePrefix info (watched perform) row = done (kv :: kws, true) := by
      rw [afterRow_ok ho, afterRead, hr]
      rfl
    rw [first_step_ended env i c n hrow hread trivial] at hdone
    cases hdone
    exact ⟨kv :: kws, List.cons_ne_nil kv kws, hd, hsame⟩

/-- **Replays.** Once an attempt has recorded its completion, the later ones
replay its result exactly if that is not empty and its numbers are kept. -/
theorem runOnce_replays_iff (namePrefix : String) (info : Info) (perform : String → Prog U Raised Attrs)
    (h : Handler U Raised D V) (i : ι) (script : List (String × D)) (start w : Race ι V) (result : Attrs)
    (hj : isJsonDict result = true)
    (hrun : run (raceWorld (key namePrefix info) h i) (runOnce namePrefix info (watched perform)) script start =
      (.returned (result, false), w)) :
    Replays (ι := ι) namePrefix info perform h w.table w.env result ↔ result ≠ [] ∧ keepsDict result = true := by
  have hcompleted := (runOnce_records h namePrefix info perform i start).run script
  rw [hrun] at hcompleted
  obtain ⟨stored, row, hrow, hc⟩ := hcompleted rfl
  rw [← dict_comes_back_iff result hj hc.serialized]
  constructor
  · intro hreplays
    -- the first attempt made a call, so there is a choice to run a later one with
    obtain ⟨c, rest, rfl⟩ : ∃ c rest, script = c :: rest := by
      rcases script with - | ⟨c, rest⟩
      · rw [runOnce_eq] at hrun
        cases hrun
      · exact ⟨c, rest, rfl⟩
    obtain ⟨kw, hne, hd, hsame⟩ := read_of_replays i c hrow hc hreplays
    refine ⟨?_, kw, hd, hsame⟩
    rintro rfl
    rcases kw with - | ⟨kv, kws⟩
    · exact hne rfl
    · cases hsame
  · rintro ⟨hne, kw, hd, hsame⟩
    obtain ⟨hnone, -⟩ | ⟨kw', record, hd', ho, hr⟩ := hc.read
    · cases hd.symm.trans hnone
    cases hd.symm.trans hd'
    rcases kw with - | ⟨kv, kws⟩
    · rcases result with - | ⟨kv, kvs⟩
      · exact absurd rfl hne
      · cases hsame
    · exact replays_of_read w.env hrow ho hr hsame

end

/-! ## Two results -/

/-- The attempt has performed and returned. -/
def performed : Outcome Raised (Attrs × Bool) → Bool
  | .returned (_, deduplicated) => !deduplicated
  | _ => false

/-- An attempt that has performed returns what that gave. -/
theorem performed_returns [DecidableEq ι] {namePrefix : String} {info : Info} {h : Handler U Raised D V} {i : ι}
    {result : Attrs} {script : List (String × D)} {start : Race ι V}
    (hp : performed (run (raceWorld (key namePrefix info) h i)
      (runOnce namePrefix info (watched fun _ => done result)) script start).1 = true) :
    ∃ w, run (raceWorld (key namePrefix info) h i) (runOnce namePrefix info (watched fun _ => done result)) script
      start = (.returned (result, false), w) := by
  have hwatched (w : Race ι V) : Safe (raceWorld (key namePrefix info) h i) (fun _ => True)
      (fun r _ => True ∧ r = result) (watched (fun _ => done result) (key namePrefix info)) w :=
    ⟨trivial, fun _ _ _ _ => ⟨trivial, fun _ _ _ _ => ⟨trivial, rfl⟩⟩⟩
  have hsafe : Safe (raceWorld (key namePrefix info) h i) (fun _ => True)
      (fun a _ => True ∧ (a.2 = false → a.1 = result))
      (runOnce namePrefix info (watched fun _ => done result)) start := by
    refine runOnce_safe (I := fun _ => True) (E := fun _ => True) (P := fun a => a.2 = false → a.1 = result)
      (fun _ h => h) ?_ ?_ ?_ ?_ ?_ (fun _ w _ _ _ => hwatched w) (fun _ => rfl) trivial
    · exact fun _ _ _ _ _ _ _ _ => trivial
    · exact fun _ _ _ _ _ _ _ _ => trivial
    · exact fun _ _ _ _ _ _ => trivial
    · intro w _
      exact getRow_safe (A := fun _ => True) trivial (fun _ _ _ _ => ⟨trivial, trivial⟩) id fun _ _ _ _ => trivial
    · exact fun _ _ _ _ hreplayed => nomatch hreplayed
  have hends := hsafe.run script
  generalize run (raceWorld (key namePrefix info) h i) _ script start = outcome at hp hends ⊢
  obtain ⟨⟨r, deduplicated⟩ | e | -, w⟩ := outcome
  · cases deduplicated
    · cases hends.2 rfl
      exact ⟨w, rfl⟩
    · cases hp
  · cases hp
  · cases hp

def receipt : Attrs := [("confirmation_id", .str "conf-payment-job-4"), ("amount_cents", .int 12000)]

/-- A `perform` that calls nothing. -/
def answers (result : Attrs) : String → Prog ⟨Empty, nofun⟩ Raised Attrs := fun _ => done result

/-- An attempt at one call, without the rest of the world. -/
def attempt (result : Attrs) : Activity (Sig.sum ⟨Empty, nofun⟩ Marks) (Attrs × Bool) :=
  runOnce "payment" ⟨"job", "4"⟩ (watched (answers result))

/-- The first one, on an empty table. -/
def firstAttempt (result : Attrs) : Outcome Raised (Attrs × Bool) × Race ℕ Unit :=
  run (raceWorld (key "payment" ⟨"job", "4"⟩) nofun 1) (attempt result)
    (List.replicate 7 ("2026-09-02T14:02:00+00:00", ())) { table := ∅, env := () }

theorem firstAttempt_returns (result : Attrs) (hp : performed (firstAttempt result).1 = true) :
    ∃ w, firstAttempt result = (.returned (result, false), w) := performed_returns hp

theorem runOnce_replays_receipt : ∃ w, firstAttempt receipt = (.returned (receipt, false), w) ∧
    Replays (ι := ℕ) (D := Unit) "payment" ⟨"job", "4"⟩ (answers receipt) nofun w.table w.env receipt := by
  obtain ⟨w, hrun⟩ := firstAttempt_returns receipt (by decide +kernel)
  refine ⟨w, hrun, ?_⟩
  exact (runOnce_replays_iff _ _ _ _ _ _ _ w receipt (by decide +kernel) hrun).mpr
    ⟨by decide +kernel, by decide +kernel⟩

/-- An attempt with the result recorded as `{}` is over, and the next one enters
`perform` again. -/
theorem runOnce_empty_again : (∃ w, firstAttempt [] = (.returned ([], false), w)) ∧
    ((later "payment" ⟨"job", "4"⟩ (answers []) (firstAttempt []).2.table ()).run
      (raceWorld (key "payment" ⟨"job", "4"⟩) nofun)
      (List.replicate 4 (2, "2026-09-02T14:03:00+00:00", ()))).world.entered 2 = true :=
  ⟨firstAttempt_returns [] (by decide +kernel), by decide +kernel⟩

end ControlPlane
