import NexusOs.Ledger.Simulation.Classify

/-!
# Operations as runs of moves: `append_facts`

Every member of a batch is classified before any is inserted; `Classified` is what the
classification of a whole batch established. The pending members are then inserted in batch
order. Both loops are followed to their end, whatever comes after it.
-/

namespace NexusOs.Ledger

open List Publish FactRecord

open Resumption (Op.bind_run Op.get_run Op.get_bind_run Op.modify_bind_run Prog.bind_ret)
open Transition (Run)

variable {L : Type} {books : Books L} {core : Core} {l l' : L} {ticket : Ticket}
  {batch : List FactRecord} {before : Trace} {member : Member}

theorem open_of_not {session : Session} (hbootstrap : session ≠ .bootstrap)
    (hsealed : session ≠ .sealed) : session = .open := by
  cases session with
  | bootstrap => exact absurd rfl hbootstrap
  | «open» => rfl
  | «sealed» => exact absurd rfl hsealed

/-- A position in a batch of at most 256 members is its own index. -/
theorem memberIndex_of_batch {members earlier rest : List Member}
    (hsize : members.length ≤ BATCH_MAX) (h : members = earlier ++ member :: rest) :
    memberIndex earlier.length = earlier.length ∧ members[earlier.length]? = some member := by
  subst h
  have hlt : earlier.length < 2 ^ 16 := by
    simp only [length_append, BATCH_MAX] at hsize
    omega
  exact ⟨if_pos hlt, by simp⟩

namespace Classified

variable {earlier members : List Member} {pending : List Bool}

variable (h : Classified books core l earlier members pending)

include h

theorem length_eq : pending.length = members.length := by
  induction h with
  | nil => rfl
  | present _ _ _ _ ih | insert _ _ _ _ _ ih => simp [ih]

theorem found (hmem : (member, false) ∈ members.zip pending) : Found books l member false := by
  induction h with
  | nil => cases hmem
  | present hfacts hrow hdigest _ ih =>
    rcases mem_cons.mp hmem with heq | hmem
    · cases heq
      exact ⟨_, _, hfacts, hrow, hdigest, nofun⟩
    · exact ih hmem
  | insert _ _ _ _ _ ih =>
    rcases mem_cons.mp hmem with heq | hmem
    · cases heq
    · exact ih hmem

theorem admitted (hbootstrap : core.session ≠ .bootstrap) (hlatch : core.latch = none)
    (hmem : (member, true) ∈ members.zip pending) : Admitted books core l member false := by
  induction h with
  | nil => cases hmem
  | present _ _ _ _ ih =>
    rcases mem_cons.mp hmem with heq | hmem
    · cases heq
    · exact ih hmem
  | insert hfacts hsession hknown hconstraint _ ih =>
    rcases mem_cons.mp hmem with heq | hmem
    · cases heq
      exact ⟨⟨open_of_not hbootstrap hsession, hlatch⟩, _, hfacts,
        row_of_constraint_none hconstraint, hknown, nofun⟩
    · exact ih hmem

end Classified

/-- The guard of `append_facts` once the lent ticket passed its check. -/
def factsGuard (core : Core) (ticket : Ticket) (issued : Bool) (phase : Phase)
    (latch : Option LatchCause) : Publish :=
  { new core with
    core := { core with phase := phase, latch := latch }
    ticket := some ticket
    issued := issued }

theorem quiet_factsGuard {phase : Phase} {latch : Option LatchCause} :
    Quiet (.appendFacts ticket batch) (factsGuard core ticket false phase latch) :=
  ⟨rfl, rfl, rfl, rfl, fun _ => rfl⟩

/-! ## Before any insert -/

section Reading

variable {op : Publish} {moves answered : List Move} {reason : Reason}

/-- A quiet operation refuses its batch. -/
theorem notApplied_quiet (hq : Quiet (.appendFacts ticket batch) op) (hreads : Reads before)
    (hrun : Run (Move.Step books) (core, l) moves (op.ended, l))
    (hanswers : ∀ trace counted ticketCounted, Answers core ⟨.appendFacts ticket batch, trace,
      some (.facts (.notApplied counted reason)), ticketCounted⟩ moves) :
    Simulated books core l (.appendFacts ticket batch) .facts before
      (notApplied .notWritten reason op) (l, .none) := by
  refine .ret (.returned hq.keep (fun counted hcounted => ?_) (fun _ => rfl) hreads hrun
    (hanswers _ _ _))
  obtain rfl := Option.some.inj (count_of_counted hcounted)
  rfl

variable {next : FactOutcome ⊕ List Bool → Op FactOutcome}

/-- A quiet operation rolls back and refuses its batch; `answered` are the moves only its
answer makes. -/
theorem rollback_notApplied
    (hq : Quiet (.appendFacts ticket batch) op)
    (hreads : Reads before) (hrun : Run (Move.Step books) (core, l) moves (op.ended, l))
    (hanswered : Run (Move.Step books) (op.ended, l) answered (op.ended, l))
    (hanswers : ∀ trace counted ticketCounted later, Answers core ⟨.appendFacts ticket batch,
      trace, some (.facts (.notApplied counted reason)), ticketCounted⟩
      (moves ++ answered ++ later)) (hnext : ∀ outcome, next (.inl outcome) = pure outcome) :
    Simulated books core l (.appendFacts ticket batch) .facts before
      (((do
        let _ ← rollback
        let outcome ← notApplied .notWritten reason
        pure (.inl outcome)) >>= next) op) (l, .none) := by
  simp only [bind_assoc, pure_bind, hnext]
  refine .rollback (fun l' hl' => ?_) ?_ (fun l' hl' => ?_)
  · obtain rfl := Storage.undecided_none.mp hl'
    exact hq.unwound (hreads.append rfl) hrun
  · refine notApplied_quiet hq (hreads.append rfl) (hrun.append hanswered) fun _ _ _ => ?_
    simpa using hanswers _ _ _ []
  obtain rfl := Storage.undecided_none.mp hl'
  have hq' : Quiet (.appendFacts ticket batch) { op with core := op.core.degrade } :=
    ⟨hq.issued, hq.keep, hq.count, hq.done, hq.lent⟩
  have hrun' := (hrun.append hanswered).append (.single .degraded)
  rw [← ended_degrade] at hrun'
  exact notApplied_quiet hq' (hreads.append rfl) hrun' fun _ _ _ => hanswers _ _ _ _

/-- Step 3 of `append_facts`. -/
theorem classifyMembers_simulated {members earlier : List Member}
    (hbootstrap : core.session ≠ .bootstrap) (hlatch : core.latch = none)
    (hphase : core.phase = .healthy) (hsize : batch.length ≤ BATCH_MAX)
    (hbatch : batch.map FactRecord.member = earlier ++ members) (hreads : Reads before)
    (hstopped : ∀ outcome, next (.inl outcome) = pure outcome)
    (hclassified : ∀ pending before, Reads before →
      Classified books core l earlier members pending →
      Simulated books core l (.appendFacts ticket batch) .facts before
        (next (.inr pending) (factsGuard core ticket false core.phase core.latch)) (l, .none)) :
    Simulated books core l (.appendFacts ticket batch) .facts before
      ((classifyMembers earlier members >>= next)
        (factsGuard core ticket false core.phase core.latch)) (l, .none) := by
  induction members generalizing earlier next before with
  | nil => exact hclassified [] before hreads .nil
  | cons member rest ih =>
    rw [classifyMembers, bind_assoc]
    refine .read quiet_factsGuard hreads (.nil _) ⟨rfl, nofun⟩ fun answer hfacts => ?_
    match answer with
    | .failed | .corrupt =>
      rw [bind_assoc]
      refine .readFailed (.nil _) fun core' moves hrun => ?_
      exact rollback_notApplied ⟨rfl, rfl, rfl, rfl, fun _ => rfl⟩ (hreads.append rfl) hrun
        (.nil _) (fun _ _ _ _ => trivial) hstopped
    | .got facts =>
      have hbatch' : batch.map FactRecord.member = (earlier ++ [member]) ++ rest := by
        rw [hbatch, append_assoc, singleton_append]
      have hreported : Reported books l member facts := ⟨_, hfacts⟩
      have hreads' : Reads (before ++ [⟨.facts (memberIndex earlier.length) member,
          some (.got facts)⟩]) := hreads.append rfl
      have hindex : ∀ {moves : List Move}, .conflicted member.key ∈ moves →
          ∃ record, batch[memberIndex earlier.length]? = some record ∧
            .conflicted record.member.key ∈ moves := by
        intro moves hmem
        obtain ⟨hindex, hmember⟩ := memberIndex_of_batch (by simpa using hsize) hbatch
        rw [List.getElem?_map, Option.map_eq_some_iff] at hmember
        obtain ⟨record, hrecord, rfl⟩ := hmember
        exact ⟨record, by rw [hindex, hrecord], hmem⟩
      -- the rest of the batch, for a member that is present and for one that is not
      have hnext : ∀ flag, (∀ pending before, Reads before →
          Classified books core l (earlier ++ [member]) rest pending →
          Simulated books core l (.appendFacts ticket batch) .facts before
            (next (.inr (flag :: pending)) (factsGuard core ticket false core.phase core.latch))
            (l, .none)) →
          Simulated books core l (.appendFacts ticket batch) .facts
            (before ++ [⟨.facts (memberIndex earlier.length) member, some (.got facts)⟩])
            (((do
              let pending ← classifyMembers (earlier ++ [member]) rest
              pure (pending.map id (flag :: ·))) >>= next)
              (factsGuard core ticket false core.phase core.latch)) (l, .none) := by
        intro flag hflag
        rw [bind_assoc]
        exact ih hbatch' hreads' hstopped hflag
      have hcases := classify_cases core (memberIndex earlier.length) member facts earlier false
      have hcore : (factsGuard core ticket false core.phase core.latch).core = core := rfl
      simp only [Op.bind_run, Op.get_run, Prog.bind_ret, hcore]
      generalize core.classify (memberIndex earlier.length) member facts earlier false =
        result at hcases
      cases hcases with
      | corrected hgating => cases hgating
      | present hcorrected hrow hdigest =>
        exact hnext false fun pending before hreads hrest =>
          hclassified _ _ hreads (.present hreported hrow hdigest hrest)
      | insert hcorrected hsession hknown hconstraint =>
        exact hnext true fun pending before hreads hrest =>
          hclassified _ _ hreads (.insert hreported hsession hknown hconstraint hrest)
      | closed hsession =>
        exact rollback_notApplied ⟨rfl, rfl, rfl, rfl, fun _ => rfl⟩ hreads' (.nil _) (.nil _)
          (fun _ _ _ _ => trivial) hstopped
      | known hmissing hknown =>
        have hconflicted := conflicted_of_known hreported hmissing hknown
        exact rollback_notApplied ⟨rfl, rfl, rfl, rfl, fun _ => rfl⟩ hreads' (.nil _) hconflicted
          (fun _ _ _ _ => hindex (by simp)) hstopped
      | @refused kind hsession hmissing hknown hconstraint =>
        have hopen : core.session = .open := open_of_not hbootstrap hsession
        obtain ⟨reason, moves, hverdict, hconflict, hrun, hconflicted⟩ :=
          refuse_moves hreported hmissing ⟨hopen, hlatch⟩ hphase
            (fun (h : false = true) => nomatch h) hknown (memberIndex earlier.length) kind
        generalize core.refuse (memberIndex earlier.length) member kind false = result at *
        obtain ⟨verdict, core'⟩ := result
        obtain rfl : verdict = .refused reason (some (memberIndex earlier.length)) := hverdict
        refine rollback_notApplied ⟨rfl, rfl, rfl, rfl, fun _ => rfl⟩ hreads' hrun hconflicted
          (fun _ _ _ _ => ?_) hstopped
        cases reason with
        | conflict i known =>
          obtain rfl := hconflict i known rfl
          exact hindex (by simp)
        | _ => trivial

end Reading

/-! ## Once the pending members are inserted -/

theorem mem_pendingRows {pairs : List (Member × Bool)} {row : LedgerRow} :
    row ∈ pendingRows pairs ↔ ∃ member, row = .fact member ∧ (member, true) ∈ pairs := by
  simp only [pendingRows, mem_map, mem_filter, Prod.exists]
  constructor
  · rintro ⟨member, pending, ⟨hmem, rfl⟩, rfl⟩
    exact ⟨member, rfl, hmem⟩
  · rintro ⟨member, rfl, hmem⟩
    exact ⟨member, true, ⟨hmem, rfl⟩, rfl⟩

/-- What the classification of a batch established. -/
structure Paying (books : Books L) (core : Core) (l : L) (pairs : List (Member × Bool)) : Prop where
  live : core.Live
  present : ∀ member, (member, false) ∈ pairs → Found books l member false
  insert : ∀ member, (member, true) ∈ pairs → Admitted books core l member false
  row : Insertable books core l (pendingRows pairs)

section Inserting

variable {pairs : List (Member × Bool)} {phase : Phase} {latch : Option LatchCause}
  {latchMoves : List Move} {txn : Txn} {next : Option FactOutcome → Op FactOutcome}

/-- What is left of a transaction in doubt is a prefix of the pending rows. -/
theorem undecided_take {rows : List LedgerRow} (hissued : txn.issued <+: rows)
    (hinserted : txn.inserted <+: rows) (h : Storage.Undecided books l txn l') :
    l' = l ∨ ∃ k, l' = books.append l (rows.take k) := by
  rw [Storage.Undecided, prefix_iff_eq_take.mp hissued, prefix_iff_eq_take.mp hinserted] at h
  rcases h with h | h | h
  · exact .inl h
  · exact .inr ⟨_, h⟩
  · exact .inr ⟨_, h⟩

namespace Paying

/-- The inserts are issued. -/
theorem issued (h : Paying books core l pairs) :
    Move.Step books (core, l) (.issued (pendingRows pairs)) (core, l) := by
  refine .issued h.live (fun member hmem => ?_) (fun member hmem => ?_)
  · obtain ⟨_, heq, hmem⟩ := mem_pendingRows.mp hmem
    cases heq
    exact h.insert member hmem
  · obtain ⟨_, heq, -⟩ := mem_pendingRows.mp hmem
    cases heq

variable (h : Paying books core l pairs) (hlatch : LatchedBy books core l latch latchMoves)

include h hlatch

/-- The moves of an append that may have written some of its rows. -/
theorem doubted (hledger : l' = l ∨ ∃ k, l' = books.append l ((pendingRows pairs).take k)) :
    Run (Move.Step books) (core, l)
      ([.issued (pendingRows pairs), .doubted (pendingRows pairs)] ++ (latchMoves ++ [.degraded]))
      ({ core with phase := .needBarrier, latch := latch }, l') := by
  have hdoubtful : ∀ row ∈ pendingRows pairs, Doubtful books core l row := by
    intro row hrow
    obtain ⟨member, rfl, hmem⟩ := mem_pendingRows.mp hrow
    exact .inl ⟨member, rfl, h.insert member hmem⟩
  have hlatched := hlatch.run (hledger.imp_right fun ⟨_, heq⟩ => ⟨_, heq⟩) rfl rfl rfl
  exact .cons h.issued (.cons (.doubted h.live hdoubtful h.row hledger)
    (hlatched.append (.single .degraded)))

variable (hwritten : Written before ([.issued (pendingRows pairs)] ++ latchMoves))

include hwritten

/-- The append unwinds once an insert is issued. -/
theorem unwound (hledger : l' = l ∨ ∃ k, l' = books.append l ((pendingRows pairs).take k)) :
    Simulates books core l (.appendFacts ticket batch) .facts before
      (.unwound (factsGuard core ticket true phase latch)) (l', txn) := by
  refine ⟨_, h.doubted hlatch hledger, hwritten.mono (by simp +contextual [subset_def]), ?_, ?_,
    fun _ => rfl, fun record hmem => by simp [hlatch.not_committed record] at hmem,
    answers_none _ _ _ _ _⟩
  · rintro (⟨_, hreply, -⟩ | ⟨_, hcounted, hnot⟩)
    · cases hreply
    · cases hcounted
      cases hnot
  · rintro _ hcounted hmember
    cases hcounted
    cases hmember

variable {reason : Reason}

/-- The append returns without knowing what was written. -/
theorem uncertain (hledger : l' = l ∨ ∃ k, l' = books.append l ((pendingRows pairs).take k)) (hreason : reason = .constraint ∨ reason = .storage) :
    Simulated books core l (.appendFacts ticket batch) .facts before
      (notApplied .uncertain reason (factsGuard core ticket true .needBarrier latch))
      (l', txn) := by
  refine .ret ⟨_, h.doubted hlatch hledger, hwritten.mono (by simp +contextual [subset_def]), ?_,
    ?_, fun _ => rfl, fun record hmem => by simp [hlatch.not_committed record] at hmem, ?_⟩
  · rintro (⟨_, hreply, hnot⟩ | ⟨_, hcounted, hnot⟩)
    · cases hreply
      cases hnot
    · cases hcounted
      cases hnot
  · rintro _ hcounted hmember
    cases hcounted
    cases hmember
  · rcases hreason with rfl | rfl <;> trivial

/-- The append returns and its rows were rolled back. -/
theorem undone (hreason : reason = .constraint ∨ reason = .storage) :
    Simulated books core l (.appendFacts ticket batch) .facts before
      (notApplied .notWritten reason (factsGuard core ticket true .needBarrier latch))
      (l, txn) := by
  have hlatched := hlatch.run (.inl rfl) rfl rfl rfl
  refine .ret ⟨_, .cons h.issued (hlatched.append (.single .degraded)),
    hwritten.mono (by simp +contextual [subset_def]), fun _ => rfl, ?_, fun _ => rfl,
    fun record hmem => by simp [hlatch.not_committed record] at hmem, ?_⟩
  · rintro _ hcounted -
    cases hcounted
    rfl
  · rcases hreason with rfl | rfl <;> trivial

/-- The append rolls back after a failed insert. -/
theorem failed (hissued : txn.issued <+: pendingRows pairs)
    (hinserted : txn.inserted <+: pendingRows pairs)
    (hreason : reason = .constraint ∨ reason = .storage)
    (hnext : ∀ outcome, next (some outcome) = pure outcome) :
    Simulated books core l (.appendFacts ticket batch) .facts before
      (((do
        let outcome ← insertFailed reason
        pure (some outcome)) >>= next) (factsGuard core ticket true phase latch)) (l, txn) := by
  simp only [bind_assoc, pure_bind, hnext, bind_pure]
  refine .rollback (fun l' hl' => ?_) ?_ (fun l' hl' => ?_)
  · exact h.unwound hlatch (hwritten.snoc_read rfl) (undecided_take hissued hinserted hl')
  · exact h.undone hlatch (hwritten.snoc_read rfl) hreason
  · exact h.uncertain hlatch (hwritten.snoc_read rfl) (undecided_take hissued hinserted hl') hreason

end Paying

/-- Step 5 of `append_facts`: `done` are the rows inserted so far. -/
theorem insertMembers_simulated (h : Paying books core l pairs) {rest : List (Member × Bool)}
    {done : List LedgerRow} {issued : Bool} {index : Nat}
    (hall : pendingRows pairs = done ++ pendingRows rest) (hissued : issued = true ∨ done = [])
    (hwritten : Written before [.issued (pendingRows pairs)])
    (hstopped : ∀ outcome, next (some outcome) = pure outcome)
    (hinserted : ∀ issued before, issued = true ∨ pendingRows pairs = [] →
      Written before [.issued (pendingRows pairs)] →
      Simulated books core l (.appendFacts ticket batch) .facts before
        (next none (factsGuard core ticket issued core.phase core.latch))
        (l, ⟨pendingRows pairs, pendingRows pairs⟩)) :
    Simulated books core l (.appendFacts ticket batch) .facts before
      ((insertMembers index rest >>= next)
        (factsGuard core ticket issued core.phase core.latch)) (l, ⟨done, done⟩) := by
  induction rest generalizing done issued index before with
  | nil =>
    obtain rfl : pendingRows pairs = done := by simpa [pendingRows] using hall
    exact hinserted issued before hissued hwritten
  | cons pair rest ih =>
    obtain ⟨member, pending⟩ := pair
    cases pending with
    | false => exact ih hall hissued hwritten
    | true =>
      have hall' : pendingRows pairs = (done ++ [.fact member]) ++ pendingRows rest := by
        rw [hall, append_assoc]
        rfl
      have hdone : done <+: pendingRows pairs := ⟨_, hall.symm⟩
      have hmore : done ++ [.fact member] <+: pendingRows pairs := ⟨_, hall'.symm⟩
      have hmem : LedgerRow.fact member ∈ pendingRows pairs := hmore.subset (by simp)
      have hsame := latchedBy_same books core l
      have hrow : ∀ other, (Verb.insert (memberIndex index) member).inserts = some other →
          .fact other ∈ pendingRows pairs ∨ .gating other ∈ pendingRows pairs := by
        rintro _ ⟨⟩
        exact .inl hmem
      have hissue := mem_singleton.mpr (Eq.refl (Move.issued (pendingRows pairs)))
      rw [insertMembers, bind_assoc, bind_assoc]
      refine .io (fun world hstep => ?_) (fun answer world hstep => ?_)
      · obtain ⟨l', hl', rfl⟩ := hstep
        exact h.unwound hsame (hwritten.snoc_write hissue hrow nofun)
          (undecided_take hmore hdone hl')
      obtain ⟨hbreaks, rfl⟩ := hstep
      match answer with
      | .inserted seq => exact ih hall' (.inl rfl) (hwritten.snoc_write hissue hrow nofun)
      | .constraint =>
        rw [bind_assoc]
        refine .latch h.live.2 ?_
        have hinsertable := h.row
        rw [hall] at hinsertable
        exact h.failed (latchedBy_constraint h.live.2 hinsertable (hbreaks rfl))
          ((hwritten.mono (by simp)).snoc_write (mem_cons_self ..) hrow (by simp))
          hmore hdone (.inl rfl) hstopped
      | .failed =>
        have hfailed : Written (before ++ [⟨.insert (memberIndex index) member,
            some .failed⟩]) [.issued (pendingRows pairs)] :=
          hwritten.snoc_write hissue hrow nofun
        exact h.failed hsame hfailed hmore hdone (.inr rfl) hstopped

/-- Step 6 of `append_facts`. -/
theorem commitMembers_simulated {pending : List Bool} (hlength : pending.length = batch.length)
    (h : Paying books core l ((batch.map FactRecord.member).zip pending)) (hwritten : Written before
      [.issued (pendingRows ((batch.map FactRecord.member).zip pending))]) :
    Simulated books core l (.appendFacts ticket batch) .facts before
      (commitMembers (factsGuard core ticket true core.phase core.latch))
      (l, ⟨pendingRows ((batch.map FactRecord.member).zip pending),
        pendingRows ((batch.map FactRecord.member).zip pending)⟩) := by
  have hsame := latchedBy_same books core l
  have hall := prefix_refl (pendingRows ((batch.map member).zip pending))
  have hwritten : ∀ answer, Written (before ++ [⟨.commit, answer⟩])
      [.issued (pendingRows ((batch.map member).zip pending))] :=
    fun _ => hwritten.snoc_write (mem_singleton.mpr rfl) nofun nofun
  refine .commit (fun l' hl' => ?_) (.ret ?_) (fun world hworld => ?_)
  · exact h.unwound hsame (hwritten _) (undecided_take hall hall hl')
  · refine .intro rfl rfl (.cons h.issued (.single (.paid h.live.2 h.present h.insert h.row))) ?_
    exact ⟨(hwritten _).mono (by simp), by simp [Label.Unwritten, Reply.unwritten], nofun, nofun,
      by simp, pending, hlength, by simp⟩
  · have hledger : ∀ l', Storage.Undecided books world.1 world.2 l' → l' = l ∨
        ∃ k, l' = books.append l
          ((pendingRows ((batch.map member).zip pending)).take k) :=
      fun l' hl' => undecided_take hall hall (hworld.undecided hl')
    refine .rollback (fun l' hl' => ?_) ?_ (fun l' hl' => ?_)
    · exact h.unwound hsame ((hwritten _).snoc_read rfl) (hledger l' hl')
    · exact h.uncertain hsame ((hwritten _).snoc_read rfl) (hledger _ (.inl rfl)) (.inr rfl)
    · exact h.uncertain hsame ((hwritten _).snoc_read rfl) (hledger l' hl') (.inr rfl)

end Inserting

/-! ## The operation -/

/-- What the entry rule tested. -/
theorem factsEntry_none (h : factsEntry core batch = none) :
    core.session ≠ .bootstrap ∧ core.latch = none ∧ core.phase = .healthy ∧
      wellFormed batch = true := by
  unfold factsEntry at h
  split at h
  · cases h
  split at h
  · cases h
  split at h
  · cases h
  split at h
  · cases h
  rename_i hsession hlatch hphase hbatch
  exact ⟨hsession, by simpa using hlatch, not_not.mp hphase, by simpa using hbatch⟩

theorem length_le_of_wellFormed (h : wellFormed batch = true) : batch.length ≤ BATCH_MAX := by
  unfold wellFormed at h
  split at h
  · cases h
  · rename_i hsize
    exact Nat.not_lt.mp fun hlt => hsize (.inr hlt)

/-- A batch none of whose members is pending inserts nothing. -/
theorem pendingRows_of_none {members : List Member} {pending : List Bool}
    (h : pending.any id = false) : pendingRows (members.zip pending) = [] := by
  rw [pendingRows, map_eq_nil_iff, filter_eq_nil_iff]
  rintro ⟨member, flag⟩ hmem hflag
  have hnot := any_eq_false.mp h flag (of_mem_zip hmem).2
  exact hnot hflag

theorem exists_pending {members : List Member} {pending : List Bool}
    (hlength : pending.length = members.length) (h : true ∈ pending) :
    ∃ member, (member, true) ∈ members.zip pending := by
  obtain ⟨i, hi, htrue⟩ := mem_iff_getElem.mp h
  refine ⟨members[i], mem_iff_getElem.mpr ⟨i, by simp; omega, ?_⟩⟩
  simp [htrue]

/-- Steps 2 to 6 of `append_facts`. -/
theorem appendMembers_simulated (hentry : factsEntry core batch = none) :
    Simulated books core l (.appendFacts ticket batch) .facts []
      (appendMembers batch (factsGuard core ticket false core.phase core.latch))
      (l, .none) := by
  obtain ⟨hbootstrap, hlatch, hphase, hbatch⟩ := factsEntry_none hentry
  have hsize := length_le_of_wellFormed hbatch
  have hmembers : (batch.map member).take BATCH_MAX = batch.map member :=
    take_of_length_le (by simpa using hsize)
  simp only [appendMembers, hmembers]
  refine .read quiet_factsGuard rfl (.nil _) ⟨rfl, nofun⟩ fun opened _ => ?_
  match opened with
  | .failed | .corrupt =>
    exact .failed (.nil _) fun core' moves hrun =>
      notApplied_quiet ⟨rfl, rfl, rfl, rfl, fun _ => rfl⟩ rfl hrun fun _ _ _ => trivial
  | .got () =>
    refine classifyMembers_simulated hbootstrap hlatch hphase hsize rfl rfl
      (fun _ => rfl) fun pending before hreads hclassified => ?_
    have hlength : pending.length = batch.length := by simpa using hclassified.length_eq
    refine .ite (fun hnone => ?_) fun hsome => ?_
    · have hpaid : Run (Move.Step books) (core, l)
          [.paid ((batch.map member).zip pending)] (core, l) := by
        have hstep := Move.Step.paid (l := l) hlatch (fun m hm => hclassified.found hm)
          (fun m hm => hclassified.admitted hbootstrap hlatch hm) (.batch hbatch hclassified)
        rw [pendingRows_of_none hnone, books.append_nil] at hstep
        exact .single hstep
      exact .rollback_pure quiet_factsGuard hreads (.nil _) hpaid
        (fun _ _ => ⟨pending, hlength, by simp⟩)
    · obtain ⟨member, hmember⟩ := exists_pending hclassified.length_eq (by simpa using hsome)
      have hadmitted := hclassified.admitted hbootstrap hlatch hmember
      have hpaying : Paying books core l ((batch.map FactRecord.member).zip pending) := by
        exact ⟨hadmitted.1, fun m hm => hclassified.found hm,
          fun m hm => hclassified.admitted hbootstrap hlatch hm, .batch hbatch hclassified⟩
      refine insertMembers_simulated hpaying rfl (.inr rfl) (hreads.written _) (fun _ => rfl)
        fun issued before hissued hwritten => ?_
      obtain rfl : issued = true := by
        refine hissued.resolve_right fun hnil => ?_
        have hrow := mem_pendingRows.mpr ⟨member, rfl, hmember⟩
        rw [hnil] at hrow
        cases hrow
      exact commitMembers_simulated hlength hpaying hwritten

/-- `append_facts`. -/
theorem facts_simulated (ticket : Ticket) (batch : List FactRecord) :
    Simulated books core l (.appendFacts ticket batch) .facts []
      (facts ticket batch (.new core)) (l, .none) := by
  simp only [facts, Op.get_bind_run, new_core]
  cases hfault : ticketFault core ticket with
  | some fault => exact .moved rfl (.single (.latched trivial)) trivial
  | none =>
    cases hentry : factsEntry core batch with
    | some entry =>
      exact notApplied_quiet ⟨rfl, rfl, rfl, rfl, fun _ => rfl⟩ rfl (.nil _) fun _ _ _ => trivial
    | none => exact appendMembers_simulated hentry

end NexusOs.Ledger
