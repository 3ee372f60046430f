import NexusOs.Ledger.Simulation.Classify

/-!
# Operations as runs of moves: those that hold U

`append_gating` and `append_acknowledgement` place their record in U for the length of the
call. U keeps it where the record may have been written and the caller was not told so; the
guard decides this on return and on unwind alike.
-/

namespace NexusOs.Ledger

open List Publish

open Resumption (Prog Outcome Op.bind_run Op.get_run Prog.bind_ret Op.get_bind_run)
open Transition (Run)

variable {L α : Type} {books : Books L} {core : Core} {l l' : L}

/-- The occupant U keeps: a gating record with the exit of its attempt. -/
def keptOccupant (done : Bool) : Occupant → Occupant
  | .gating record _ => .gating record (if done then .returnedUncertain else .unwound)
  | occupant => occupant

/-- What the guard does with U when `occupant` is placed there. -/
def Occupant.hold : Occupant → Hold
  | .gating _ _ => .gating
  | _ => .acknowledgement

/-- The guard of an operation that holds U. -/
def heldGuard (core : Core) (occupant : Occupant) (issued : Bool) (phase : Phase)
    (latch : Option LatchCause) : Publish :=
  { new core with
    core := { core.spend .u with
      u := some (core.occupancies .u + 1, occupant), phase := phase, latch := latch }
    hold := occupant.hold
    issued := issued }

/-- The guard of such an operation before its insert. -/
abbrev entryGuard (core : Core) (occupant : Occupant) : Publish :=
  heldGuard core occupant false core.phase core.latch

/-- What was tested before the insert of a record that holds U. -/
structure Holding (books : Books L) (core : Core) (l : L) (occupant : Occupant) : Prop where
  ready : core.Ready
  room : core.Room .u
  test : ∀ done, Holdable books core l (keptOccupant done occupant)
  row : ∀ core, Insertable books core l [occupant.row]

/-- The end of such an operation whose insert failed. -/
def heldFailed (result : Persistence → α) : Op α := do
  failed
  let persistence ← rollback
  modify fun (op : Publish) => { op with keep := persistence = .uncertain }
  pure (result persistence)

/-- The end of such an operation whose commit may have failed. -/
def heldUnknown (value : α) : Op α := do
  failed
  let _ ← rollback
  modify fun (op : Publish) => { op with keep := true }
  pure value

/-- What follows the answer to the insert of such an operation. -/
def heldAnswer (durable : Seq → Op α) (constraint failed : Persistence → α) : Insert → Op α
  | .inserted seq => do
    let answer : Commit ← io .commit
    match answer with
    | .durable => durable seq
    | .unknown => heldUnknown (failed .uncertain)
  | .constraint => do
    latch .constraint
    heldFailed constraint
  | .failed => heldFailed failed

/-- Results of an operation that promise nothing. -/
def Unpaid (core : Core) (call : Call) (wrap : α → Reply) (result : Persistence → α) : Prop :=
  (wrap (result .uncertain)).unwritten = false ∧
    ∀ p trace moves, Answers core ⟨call, trace, some (wrap (result p)), none⟩ moves

/-! ## How such an operation ends -/

section Ends

variable {occupant : Occupant} {phase : Phase} {latch : Option LatchCause}
  {latchMoves : List Move} {call : Call} {wrap : α → Reply} {before : Trace} {txn : Txn}

theorem keptOccupant_row (done : Bool) (occupant : Occupant) :
    (keptOccupant done occupant).row = occupant.row := by
  cases occupant <;> rfl

/-- Before its insert, the operation only spends a number of U. -/
theorem entryGuard_ended (hu : core.u = none) :
    (entryGuard core occupant).ended = core.spend .u := by
  cases core
  cases hu
  cases occupant <;> rfl

theorem quiet_heldGuard {call : Call} : Quiet call (heldGuard core occupant false phase latch) :=
  ⟨rfl, rfl, rfl, rfl, nofun⟩

theorem heldGuard_unwound :
    (finish (.unwound (heldGuard core occupant true phase latch) : Outcome Publish α)).core =
      { core.holdU (keptOccupant false occupant) with latch := latch } := by
  cases occupant <;> rfl

theorem heldGuard_unwound_counted :
    (finish (.unwound (heldGuard core occupant true phase latch) :
      Outcome Publish α)).counted = none := by
  cases occupant <;> rfl

theorem heldGuard_kept (value : α) :
    (finish (.returned { heldGuard core occupant true .needBarrier latch with keep := true }
      value)).core = { core.holdU (keptOccupant true occupant) with latch := latch } := by
  cases occupant <;> rfl

theorem heldGuard_dropped (hu : core.u = none) (value : α) :
    (finish (.returned (heldGuard core occupant true phase latch) value)).core =
      { core.spend .u with phase := phase, latch := latch } := by
  cases core
  cases hu
  cases occupant <;> rfl

/-- The insert is issued. -/
theorem Holding.issued (h : Holding books core l occupant) :
    Move.Step books (core, l) (.issued [occupant.row]) (core, l) := by
  have htest := h.test true
  refine .issued h.ready.1 (fun m hm => ?_) (fun m hm => ?_)
  · cases occupant <;> simp [Occupant.row] at hm
  cases occupant with
  | gating record exit =>
    obtain rfl : m = record.member := by simpa [Occupant.row] using hm
    exact htest.2
  | _ => simp [Occupant.row] at hm

variable (h : Holding books core l occupant) (hlatch : LatchedBy books core l latch latchMoves)

include h hlatch

/-- The moves of an operation whose record U keeps. -/
theorem Holding.kept (hledger : l' = l ∨ l' = books.append l [occupant.row]) (done : Bool) :
    Run (Move.Step books) (core, l)
      ([.issued [occupant.row], .held (keptOccupant done occupant)] ++ latchMoves)
      ({ core.holdU (keptOccupant done occupant) with latch := latch }, l') := by
  have hlatched := hlatch.run (hledger.imp_right fun heq => ⟨_, heq⟩)
    (show (core.holdU (keptOccupant done occupant)).latch = core.latch from rfl) rfl rfl
  have hrow := h.row core
  rw [← keptOccupant_row done] at hledger hrow
  exact .cons h.issued (.cons (.held h.ready h.room (h.test done) hrow hledger) hlatched)

/-- The moves of an operation whose record was rolled back. -/
theorem Holding.dropped :
    Run (Move.Step books) (core, l)
      ([.issued [occupant.row], .spent] ++ (latchMoves ++ [.degraded]))
      ({ core.spend .u with phase := .needBarrier, latch := latch }, l) :=
  have hlatched := hlatch.run (.inl rfl) (show (core.spend .u).latch = core.latch from rfl) rfl rfl
  .cons h.issued (.cons (.spent h.ready h.room) (hlatched.append (.single .degraded)))

variable (hwritten : Written before ([.issued [occupant.row]] ++ latchMoves))

include hwritten

/-- The operation unwinds once its insert is issued. -/
theorem Holding.unwound (hledger : l' = l ∨ l' = books.append l [occupant.row]) :
    Simulates books core l call wrap before
      (.unwound (heldGuard core occupant true phase latch)) (l', txn) :=
  .intro heldGuard_unwound heldGuard_unwound_counted (h.kept hlatch hledger false)
    ⟨hwritten.mono (by simp +contextual [subset_def]), by simp [Label.Unwritten], nofun, nofun,
      fun record hmem => by simp [hlatch.not_committed record] at hmem, answers_none _ _ _ _ _⟩

/-- The operation returns, and its result keeps U. -/
theorem Holding.returned_kept (hledger : l' = l ∨ l' = books.append l [occupant.row]) {value : α}
    (hreply : (wrap value).unwritten = false)
    (hanswers : ∀ trace moves, Answers core ⟨call, trace, some (wrap value), none⟩ moves) :
    Simulates books core l call wrap before
      (.returned { heldGuard core occupant true .needBarrier latch with keep := true } value)
      (l', txn) :=
  .intro (heldGuard_kept value) (finish_returned_counted _ _) (h.kept hlatch hledger true)
    ⟨hwritten.mono (by simp +contextual [subset_def]), by simp [Label.Unwritten, hreply], nofun,
      nofun, fun record hmem => by simp [hlatch.not_committed record] at hmem, hanswers _ _⟩

/-- The operation returns, and its record was rolled back. -/
theorem Holding.returned_dropped {value : α}
    (hanswers : ∀ trace moves, Answers core ⟨call, trace, some (wrap value), none⟩ moves) :
    Simulates books core l call wrap before
      (.returned (heldGuard core occupant true .needBarrier latch) value) (l, txn) :=
  .intro (heldGuard_dropped h.ready.2.2.1 value) (finish_returned_counted _ _)
    (h.dropped hlatch) ⟨hwritten.mono (by simp +contextual [subset_def]), fun _ => rfl, nofun,
      nofun, fun record hmem => by simp [hlatch.not_committed record] at hmem, hanswers _ _⟩

variable (hissued : txn.issued = [occupant.row])
  (hinserted : txn.inserted = [] ∨ txn.inserted = [occupant.row])

include hissued hinserted

/-- The operation rolls back after a failed insert, and keeps U unless it is undone. -/
theorem Holding.failed {result : Persistence → α} (hresult : Unpaid core call wrap result) :
    Simulated books core l call wrap before
      (heldFailed result (heldGuard core occupant true phase latch)) (l, txn) := by
  refine .rollback (fun l' hl' => ?_) (.ret ?_) (fun l' hl' => .ret ?_)
  · exact h.unwound hlatch (hwritten.snoc_read rfl) (Storage.undecided_single hissued hinserted hl')
  · exact h.returned_dropped hlatch (hwritten.snoc_read rfl) (hresult.2 _)
  · exact h.returned_kept hlatch (hwritten.snoc_read rfl)
      (Storage.undecided_single hissued hinserted hl') hresult.1 (hresult.2 _)

/-- The operation rolls back after a commit whose fate is unknown, and keeps U. -/
theorem Holding.unknown {result : Persistence → α} (hresult : Unpaid core call wrap result)
    {world : L × Txn} (hworld : Storage.InDoubt books l txn world) :
    Simulated books core l call wrap before
      (heldUnknown (result .uncertain) (heldGuard core occupant true phase latch)) world := by
  have hledger : ∀ l', Storage.Undecided books world.1 world.2 l' →
      l' = l ∨ l' = books.append l [occupant.row] :=
    fun l' hl' => Storage.undecided_single hissued hinserted (hworld.undecided hl')
  refine .rollback (fun l' hl' => ?_) (.ret ?_) (fun l' hl' => .ret ?_)
  · exact h.unwound hlatch (hwritten.snoc_read rfl) (hledger l' hl')
  · exact h.returned_kept hlatch (hwritten.snoc_read rfl) (hledger _ (.inl rfl)) hresult.1
      (hresult.2 _)
  · exact h.returned_kept hlatch (hwritten.snoc_read rfl) (hledger l' hl') hresult.1 (hresult.2 _)

end Ends

/-- The answer to the insert of a record that holds U, and its commit. -/
theorem Holding.answered {occupant : Occupant} (h : Holding books core l occupant) {before : Trace}
    (hreads : Reads before) (call : Call) (wrap : α → Reply) (event : Insert → Event)
    (durable : Seq → Op α) (constraint failed : Persistence → α)
    (hrow : ∀ answer member, (event answer).verb.inserts = some member →
      .gating member ∈ [occupant.row])
    (hevent : ∀ answer, (event answer).constraint = true → answer = .constraint)
    (hconstraint : Unpaid core call wrap constraint) (hfailed : Unpaid core call wrap failed)
    (hdurable : ∀ seq trace, Written trace [.issued [occupant.row]] →
      Simulated books core l call wrap trace
        (durable seq (heldGuard core occupant true core.phase core.latch))
        (books.append l [occupant.row], .none)) {answer : Insert}
    (hbreaks : answer = .constraint → books.breaks l [] occupant.row) :
    Simulated books core l call wrap (before ++ [event answer])
      (heldAnswer durable constraint failed answer
        (heldGuard core occupant true core.phase core.latch))
      (l, Txn.none.insert occupant.row answer) := by
  have hsame := latchedBy_same books core l
  have hissued : Move.issued [occupant.row] ∈ [Move.issued [occupant.row]] := mem_singleton.mpr rfl
  have hwritten : ∀ {moves}, .issued [occupant.row] ∈ moves →
      (answer = .constraint → .latched .constraint ∈ moves) →
      Written (before ++ [event answer]) moves := fun hissued hlatched =>
    (hreads.written _).snoc_write hissued (fun m hm => .inr (hrow _ m hm))
      fun hc => hlatched (hevent _ hc)
  cases answer with
  | inserted seq =>
    have hwritten : ∀ answer, Written (before ++ [event (.inserted seq)] ++ [⟨.commit, answer⟩])
        [.issued [occupant.row]] :=
      fun _ => (hwritten hissued nofun).snoc_write hissued nofun nofun
    refine .commit (fun l' hl' => ?_) (hdurable seq _ (hwritten _)) fun world hworld => ?_
    · exact h.unwound hsame (hwritten _) (Storage.undecided_single rfl (.inr rfl) hl')
    · exact h.unknown hsame (hwritten _) rfl (.inr rfl) hfailed hworld
  | constraint =>
    refine .latch h.ready.1.2 ?_
    exact h.failed (latchedBy_constraint h.ready.1.2 (h.row core) (hbreaks rfl))
      (hwritten (mem_cons_self ..) (by simp)) rfl (.inl rfl) hconstraint
  | failed => exact h.failed hsame (hwritten hissued nofun) rfl (.inl rfl) hfailed

/-- What the entry rule tested. -/
theorem holdEntry_none (hentry : holdEntry core = none) :
    core.Live ∧ core.phase = .healthy ∧ core.c = none ∧ core.x = none := by
  unfold holdEntry at hentry
  split at hentry
  · cases hentry
  split at hentry
  · cases hentry
  split at hentry
  · cases hentry
  split at hentry
  · cases hentry
  rename_i hsession hlatch hphase hcells
  simp only [not_not, Bool.not_eq_true, Option.isSome_eq_false_iff, Option.isNone_iff_eq_none,
    not_or] at hsession hlatch hphase hcells
  exact ⟨⟨hsession, hlatch⟩, hphase, hcells.1, hcells.2⟩

/-- A healthy store whose U is occupied breaks the invariant of the cells. -/
theorem broken_of_holdEntry (hentry : holdEntry core = none) (hu : core.u.isSome) :
    ¬ core.CellsOk := fun hok => (hok.u_alone hu).2.2 (holdEntry_none hentry).2.1

/-- A store that may hold U is ready. -/
theorem ready_of_holdEntry (hentry : holdEntry core = none) (hu : ¬ core.u.isSome) :
    core.Ready := by
  obtain ⟨hlive, hphase, hc, hx⟩ := holdEntry_none hentry
  exact ⟨hlive, hphase, by simpa using hu, hc, hx⟩

/-! ## Gating records -/

section Gating

variable {record : GatingRecord} {before : Trace}

/-- The insert and the commit of a gating record. -/
theorem insertGating_simulated
    (h : Holding books core l (.gating record .inCall)) (hreads : Reads before) :
    Simulated books core l (.appendGating record) .gating before
      (insertGating record.member (entryGuard core (.gating record .inCall)))
      (l, .none) := by
  have hrow : ∀ member, (Verb.insert 0 record.member).inserts = some member →
      LedgerRow.gating member ∈ [LedgerRow.gating record.member] := by
    rintro _ ⟨⟩
    exact mem_singleton.mpr rfl
  refine .io (fun world hstep => ?_) (fun answer world hstep => ?_)
  · obtain ⟨l', hl', rfl⟩ := hstep
    exact h.unwound (latchedBy_same books core l) ((hreads.written _).snoc_write
      (mem_singleton.mpr rfl) (fun m hm => .inr (hrow m hm)) nofun)
      (Storage.undecided_single rfl (.inl rfl) hl')
  obtain ⟨hbreaks, rfl⟩ := hstep
  refine h.answered hreads (.appendGating record) .gating
    (fun answer => ⟨.insert 0 record.member, some answer⟩) (fun seq => pure (.committed seq))
    (.refused · .constraint) (.refused · .storage) (fun _ => hrow) (by rintro ⟨⟩ ⟨⟩; rfl)
    ⟨rfl, fun _ _ _ => trivial⟩ ⟨rfl, fun _ _ _ => trivial⟩ (fun seq trace hwritten => .ret ?_)
    hbreaks
  refine .intro (heldGuard_dropped h.ready.2.2.1 _) (finish_returned_counted _ _)
    (.cons h.issued (.cons (.spent h.ready h.room)
      (.single (.committed h.ready (h.test true).2 (h.row _))))) ?_
  exact ⟨hwritten.mono (by simp [Occupant.row]), by simp [Label.Unwritten, Reply.unwritten], nofun,
    nofun, by simp, by simp [Answers]⟩

/-- A gating append once the facts of its record are read. -/
theorem gatingFacts_simulated (hready : core.Ready) (hroom : core.Room .u) {facts : MemberFacts}
    (hfacts : Reported books l record.member facts) (hreads : Reads before)
    (hspent : Run (Move.Step books) (core, l) [.spent] (core.spend .u, l)) :
    Simulated books core l (.appendGating record) .gating before
      ((do
        let op ← get
        let (verdict, core) := op.core.classify 0 record.member facts [] true
        update fun _ => core
        match verdict with
        | .present seq => do
          let _ ← rollback
          pure (.committed seq)
        | .refused reason _ => do
          let _ ← rollback
          pure (.refused .notWritten reason)
        | .insert => insertGating record.member : Op GatingOutcome)
        (entryGuard core (.gating record .inCall))) (l, .none) := by
  have hended : (entryGuard core (.gating record .inCall)).ended = core.spend .u :=
    entryGuard_ended hready.2.2.1
  have hclass : (entryGuard core (.gating record .inCall)).core.classify 0 record.member facts []
      true = _ :=
    classify_withU (core.spend .u) (some (core.occupancies .u + 1, .gating record .inCall))
      0 record.member facts [] true
  have hcases := classify_cases (core.spend .u) 0 record.member facts [] true
  simp only [Op.get_bind_run, hclass]
  generalize (core.spend .u).classify 0 record.member facts [] true = result at hcases
  have hready' : (core.spend .u).Ready := hready
  have hkept := hspent
  rw [← hended] at hkept
  cases hcases with
  | corrected => exact .rollback_pure quiet_heldGuard hreads hkept (.nil _) (fun _ _ => trivial)
  | present hcorrected hrow hdigest =>
    have htold : Run (Move.Step books) (core.spend .u, l) [.told record] (core.spend .u, l) :=
      .single (.told hready' ⟨facts, _, hfacts, hrow, hdigest, hcorrected⟩)
    rw [← hended] at htold
    exact .rollback_pure quiet_heldGuard hreads hkept htold (fun _ _ => .inl (by simp))
  | known hmissing hknown =>
    have hconflicted := conflicted_of_known hfacts hmissing hknown
    rw [← hended] at hconflicted
    exact .rollback_pure quiet_heldGuard hreads hkept hconflicted (fun _ _ => by simp [Answers])
  | closed hsession =>
    rw [hready'.1.1] at hsession
    cases hsession
  | insert hcorrected hsession hknown hconstraint =>
    refine insertGating_simulated
      ⟨hready, hroom, fun done => ?_, fun _ => .gating hfacts hconstraint⟩ hreads
    refine ⟨by cases done <;> nofun, hready.1, facts, hfacts, ?_, hknown, hcorrected⟩
    exact row_of_constraint_none hconstraint
  | @refused kind hsession hmissing hknown hconstraint =>
    obtain ⟨reason, moves, hverdict, -, hrun, hconflicted⟩ :=
      refuse_moves hfacts hmissing hready'.1 hready'.2.1 (fun (_ : true = true) => hready'.2.2.2.2)
        hknown 0 kind
    have hkeeps := refuse_keepsU hready'.2.2.1 0 record.member kind true
    generalize (core.spend .u).refuse 0 record.member kind true = result at *
    obtain ⟨verdict, core'⟩ := result
    obtain rfl : verdict = .refused reason (some 0) := hverdict
    have hkeeps : core'.withU none = core' := hkeeps
    have hrun : Run (Move.Step books) (core, l) _ (core', l) := hspent.append hrun
    rw [← hkeeps] at hrun hconflicted
    refine .rollback_pure ⟨rfl, rfl, rfl, rfl, nofun⟩ hreads hrun hconflicted (fun _ _ => ?_)
    cases reason <;> simp [Answers]

/-- A gating append once its record holds U. -/
theorem gatingHeld_simulated (hready : core.Ready) (hroom : core.Room .u) :
    Simulated books core l (.appendGating record) .gating []
      (gatingHeld record.member (entryGuard core (.gating record .inCall)))
      (l, .none) := by
  have hspent : Run (Move.Step books) (core, l) [.spent] (core.spend .u, l) :=
    .single (.spent hready hroom)
  have hkept := hspent
  rw [← entryGuard_ended hready.2.2.1] at hkept
  refine .read quiet_heldGuard rfl hkept ⟨rfl, nofun⟩ fun opened _ => ?_
  match opened with
  | .failed | .corrupt =>
    exact .failed hkept fun core' moves hrun =>
      .ret (Quiet.returned ⟨rfl, rfl, rfl, rfl, nofun⟩ rfl hrun trivial)
  | .got () =>
    refine .read quiet_heldGuard rfl hkept ⟨rfl, nofun⟩ fun answer hfacts => ?_
    match answer with
    | .got facts => exact gatingFacts_simulated hready hroom ⟨0, hfacts⟩ rfl hspent
    | .failed | .corrupt =>
      refine .readFailed hkept fun core' moves hrun => ?_
      exact .rollback_pure ⟨rfl, rfl, rfl, rfl, nofun⟩ rfl hrun (.nil _) (fun _ _ => trivial)

/-- `append_gating`. -/
theorem gating_simulated (record : GatingRecord) :
    Simulated books core l (.appendGating record) .gating []
      (gating record (.new core)) (l, .none) := by
  simp only [gating, Op.get_bind_run, new_core]
  cases hentry : holdEntry core with
  | some entry => exact .idle rfl trivial
  | none =>
    refine .ite (fun hu => ?_) fun hu => ?_
    · exact .moved rfl (.single (.latched (broken_of_holdEntry hentry hu))) trivial
    have hready := ready_of_holdEntry hentry hu
    simp only [place, Op.bind_run, Op.get_run, Prog.bind_ret, new_core]
    by_cases hroom : core.Room .u
    · rw [Core.place_u hroom]
      exact gatingHeld_simulated hready hroom
    · rw [Core.place_full hroom]
      exact .moved rfl (.single (.latched trivial)) trivial

end Gating

/-! ## Acknowledgements -/

section Acknowledgement

variable {snapshot : Snapshot} {before : Trace}

theorem raiseFrontier_withU (top : Seq) (core : Core) (u : Option (Nat × Occupant)) :
    raiseFrontier top (core.withU u) = (raiseFrontier top core).withU u := by
  have hfrontier : (core.withU u).frontier = core.frontier := rfl
  simp only [raiseFrontier, hfrontier]
  split <;> rfl

/-- The insert and the commit of an acknowledgement. -/
theorem insertAck_simulated
    (h : Holding books core l (.acknowledgement snapshot.set snapshot.nonce))
    (hreads : Reads before) :
    Simulated books core l (.appendAcknowledgement snapshot) .acknowledgement before
      (insertAck snapshot
        (entryGuard core (.acknowledgement snapshot.set snapshot.nonce))) (l, .none) := by
  refine .io (fun world hstep => ?_) (fun answer world hstep => ?_)
  · obtain ⟨l', hl', rfl⟩ := hstep
    exact h.unwound (latchedBy_same books core l)
      ((hreads.written _).snoc_write (mem_singleton.mpr rfl) nofun nofun)
      (Storage.undecided_single rfl (.inl rfl) hl')
  obtain ⟨hbreaks, rfl⟩ := hstep
  refine h.answered hreads (.appendAcknowledgement snapshot) .acknowledgement
    (fun answer => ⟨.insertAck snapshot, some answer⟩) (fun _ => do
      update (raiseFrontier snapshot.set.top)
      pure (.committed snapshot.set.top)) .notApplied .notApplied nofun (by rintro ⟨⟩ ⟨⟩; rfl)
    ⟨rfl, fun _ _ _ => trivial⟩ ⟨rfl, fun _ _ _ => trivial⟩ (fun seq trace hwritten => .ret ?_)
    hbreaks
  refine .intro ?_ (finish_returned_counted _ _) (.cons h.issued (.cons (.spent h.ready h.room)
    (.single (.acked h.ready (h.test true))))) ?_
  · have hended := raiseFrontier_withU snapshot.set.top
      ((core.spend .u).withU (some (core.occupancies .u + 1,
        .acknowledgement snapshot.set snapshot.nonce))) none
    rw [Core.withU_withU, Core.withU_self (show (core.spend .u).u = none from h.ready.2.2.1)]
      at hended
    exact hended.symm
  · exact ⟨hwritten.mono (by simp [Occupant.row]), by simp [Label.Unwritten, Reply.unwritten],
      nofun, nofun, by simp, by simp [Answers]⟩

/-- An acknowledgement once it holds U. -/
theorem ackHeld_simulated (hready : core.Ready) (hroom : core.Room .u) :
    Simulated books core l (.appendAcknowledgement snapshot) .acknowledgement []
      (ackHeld snapshot
        (entryGuard core (.acknowledgement snapshot.set snapshot.nonce))) (l, .none) := by
  have hspent : Run (Move.Step books) (core, l) [.spent] (core.spend .u, l) :=
    .single (.spent hready hroom)
  rw [← entryGuard_ended hready.2.2.1] at hspent
  refine .read quiet_heldGuard rfl hspent ⟨rfl, nofun⟩ fun opened _ => ?_
  match opened with
  | .failed | .corrupt =>
    exact .failed hspent fun core' moves hrun =>
      .ret (Quiet.returned ⟨rfl, rfl, rfl, rfl, nofun⟩ rfl hrun trivial)
  | .got () =>
    refine .read quiet_heldGuard rfl hspent ⟨rfl, nofun⟩ fun answer hrecheck => ?_
    match answer with
    | .got now =>
      cases hrefusal : ackRefusal snapshot.set now with
      | some refusal =>
        simp only [hrefusal]
        exact .rollback_pure quiet_heldGuard rfl hspent (.nil _) (fun _ _ => trivial)
      | none =>
        simp only [hrefusal]
        exact insertAck_simulated ⟨hready, hroom, fun _ => ⟨now, hrecheck, hrefusal⟩,
          fun _ => .acknowledgement⟩ rfl
    | .failed | .corrupt =>
      refine .readFailed hspent fun core' moves hrun => ?_
      exact .rollback_pure ⟨rfl, rfl, rfl, rfl, nofun⟩ rfl hrun (.nil _) (fun _ _ => trivial)

/-- `append_acknowledgement`. -/
theorem acknowledgement_simulated (snapshot : Snapshot) :
    Simulated books core l (.appendAcknowledgement snapshot) .acknowledgement []
      (acknowledgement snapshot (.new core)) (l, .none) := by
  simp only [acknowledgement, Op.get_bind_run, new_core]
  refine .ite (fun _ => .idle rfl trivial) fun _ => ?_
  cases hentry : holdEntry core with
  | some entry => exact .idle rfl trivial
  | none =>
    refine .ite (fun hu => ?_) fun hu => ?_
    · exact .moved rfl (.single (.latched (broken_of_holdEntry hentry hu))) trivial
    have hready := ready_of_holdEntry hentry hu
    simp only [place, Op.bind_run, Op.get_run, Prog.bind_ret, new_core]
    by_cases hroom : core.Room .u
    · rw [Core.place_u hroom]
      exact ackHeld_simulated hready hroom
    · rw [Core.place_full hroom]
      exact .moved rfl (.single (.latched trivial)) trivial

end Acknowledgement

end NexusOs.Ledger
