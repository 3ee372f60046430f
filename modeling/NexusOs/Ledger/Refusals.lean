import NexusOs.Ledger.Persistence

/-!
# Refused conflicts

A key that was answered Conflict is never answered Committed and never inserted again. The
memory of it moves from the table to X and from there to the ledger, and is at every point in
one of the three, unless the store is latched.
-/

namespace NexusOs.Ledger

open Transition (Run)

variable {digest : SetDigest} {state next : Core × Rows} {move : Move} {moves : List Move}
  {key : RecordKey} {member : Member} {gating : Bool}

/-- The conflict of the key is in the table or in X, is explained in the ledger, or the store
is latched. -/
def Recalled (key : RecordKey) (state : Core × Rows) : Prop :=
  state.1.refusals.lookup key ≠ none ∨
    (∃ n cause stage, state.1.x = some (n, .explanation key cause, stage)) ∨
    (∃ cause, .explanation key cause ∈ state.2) ∨ state.1.latch.isSome

/-- The record is not in the ledger with its content, and its conflict is recalled. -/
structure Refused (key : RecordKey) (state : Core × Rows) : Prop where
  grounded : Grounded state
  missing : ¬ state.2.Has key
  recalled : Recalled key state

/-- A refused record is not classified `Insert`. -/
theorem Refused.key_ne (h : Refused key state)
    (hadmitted : Admitted (honest digest) state.1 state.2 member gating) : member.key ≠ key := by
  rintro rfl
  obtain ⟨⟨-, hlatch⟩, -, hremembers, hexplained, -⟩ := hadmitted.honest
  obtain htable | hx | ⟨cause, hmem⟩ | hlatched := h.recalled
  · exact hremembers (.inl htable)
  · exact hremembers (.inr hx)
  · exact hexplained cause hmem
  · rw [hlatch] at hlatched
    cases hlatched

/-! ## Keeping the memory -/

section

variable (h : Move.Step (honest digest) state move next)

include h

/-- A conflict leaves the table only once it is explained in the ledger. -/
theorem Move.Step.table_keeps (htable : state.1.refusals.lookup key ≠ none) :
    next.1.refusals.lookup key ≠ none ∨ ∃ cause, .explanation key cause ∈ next.2 := by
  have herase : ∀ {original : RecordKey}, original ≠ key →
      (state.1.refusals.erase original).lookup key ≠ none := by
    intro original hne
    rwa [AList.lookup_erase_ne hne.symm]
  cases h with
  | @learned core l original cause =>
    refine .inl ?_
    by_cases heq : key = original
    · simp [Core.remember, heq]
    · rwa [Core.remember, AList.lookup_insert_ne heq]
  | @forgot core l original hexplained =>
    by_cases heq : original = key
    · exact .inr (heq ▸ hexplained.honest)
    · exact .inl (herase heq)
  | @settled core l l' cell occupant seq hlive hholds htest =>
    have hmem := settled_mem (.settled hlive hholds htest)
    obtain ⟨rfl, n, -⟩ | ⟨rfl, n, hx⟩ := hholds
    · exact .inl htable
    obtain ⟨refusals, hsettle, rfl | ⟨original, cause, rfl, rfl⟩⟩ := settle_x hx seq
    · exact .inl (by rwa [hsettle])
    · by_cases heq : original = key
      · exact .inr ⟨cause, heq ▸ hmem⟩
      · exact .inl (by rw [hsettle]; exact herase heq)
  | latched | acked | acknowledged =>
    exact .inl (by simpa only [setLatch_eq, raiseFrontier_eq, Publish.releaseU] using htable)
  | _ => exact .inl htable

/-- An explanation leaves X only once it is in the ledger. -/
theorem Move.Step.explanation_keeps (hledger : XInLedger state) {n : Nat} {cause : Cause}
    {stage : Stage} (hx : state.1.x = some (n, .explanation key cause, stage)) :
    (∃ n cause stage, next.1.x = some (n, .explanation key cause, stage)) ∨
      ∃ cause, .explanation key cause ∈ next.2 := by
  obtain hsame | ⟨-, n', occupant, seq, hcommitted⟩ | ⟨n', occupant, seq, -, hbuilt, hnext⟩ |
    ⟨_, _, -, hnone, -⟩ := h.x
  · exact .inl ⟨n, cause, stage, hsame.trans hx⟩
  · have hmem := hledger n' occupant seq hcommitted
    cases hcommitted.symm.trans hx
    exact .inr ⟨cause, h.grows.subset hmem⟩
  · cases hbuilt.symm.trans hx
    exact .inl ⟨n, cause, _, hnext⟩
  · cases hnone.symm.trans hx

/-- Once recalled, always recalled. -/
theorem Move.Step.recalled_keeps (hledger : XInLedger state) (hrecalled : Recalled key state) :
    Recalled key next := by
  obtain htable | ⟨n, cause, stage, hx⟩ | ⟨cause, hmem⟩ | hlatched := hrecalled
  · exact (h.table_keeps htable).imp_right fun hmem => .inr (.inl hmem)
  · exact .inr ((h.explanation_keeps hledger hx).imp_right .inl)
  · exact .inr (.inr (.inl ⟨cause, h.grows.subset hmem⟩))
  refine .inr (.inr (.inr ?_))
  obtain hsame | ⟨cause, hnone, -⟩ := h.latch
  · rwa [hsame]
  · rw [hnone] at hlatched
    cases hlatched

end

/-- A record's row enters the ledger only where it was classified `Insert`. -/
theorem Enters.admitted {row : LedgerRow} (h : Enters (honest digest) state move row)
    (hok : state.1.CellsOk) (hrow : row.member? = some member) :
    ∃ gating, Admitted (honest digest) state.1 state.2 member gating := by
  cases h with
  | fact hadmitted | committed _ hadmitted | held _ hadmitted =>
    cases hrow
    exact ⟨_, hadmitted⟩
  | acknowledgement => cases hrow
  | cell hholds => cases (hok.member?_row hholds).symm.trans hrow

section

variable (h : Refused key state) {record : GatingRecord}

include h

/-- Every move keeps a refused record refused. -/
theorem Refused.step (hstep : Move.Step (honest digest) state move next) : Refused key next := by
  refine ⟨h.grounded.step hstep, fun hhas => ?_, hstep.recalled_keeps h.grounded.x h.recalled⟩
  obtain ⟨more, hmore, henters⟩ := hstep.appended
  rw [hmore] at hhas
  obtain hhas | ⟨row, hmem, member, hrow, hkey⟩ := hhas.of_append
  · exact h.missing hhas
  · obtain ⟨gating, hadmitted⟩ := (henters row hmem).admitted h.grounded.cells hrow
    exact h.key_ne hadmitted hkey

/-- A refused record is in no batch that is paid. -/
theorem Refused.not_paid {members : List (Member × Bool)} {pending : Bool}
    (hstep : Move.Step (honest digest) state (.paid members) next)
    (hmem : (member, pending) ∈ members) : member.key ≠ key := by
  cases hstep with
  | paid _ hpresent hinsert =>
    cases pending with
    | false =>
      rintro rfl
      exact h.missing (hpresent member hmem).honest.1
    | true => exact h.key_ne (hinsert member hmem)

/-- A refused gating record is not told. -/
theorem Refused.not_told (hstep : Move.Step (honest digest) state (.told record) next) :
    record.member.key ≠ key := by
  cases hstep with
  | told _ htest =>
    rintro rfl
    exact h.missing htest.honest.1

/-- A refused gating record is not committed. -/
theorem Refused.not_committed (hstep : Move.Step (honest digest) state (.committed record) next) :
    record.member.key ≠ key := by
  cases hstep with
  | committed _ htest => exact h.key_ne htest

/-- A refused record is not issued. -/
theorem Refused.not_issued {rows : List LedgerRow}
    (hstep : Move.Step (honest digest) state (.issued rows) next)
    (hmem : .fact member ∈ rows ∨ .gating member ∈ rows) : member.key ≠ key := by
  cases hstep with
  | issued _ hfact hgating =>
    rcases hmem with hmem | hmem
    · exact h.key_ne (hfact member hmem)
    · exact h.key_ne (hgating member hmem)

end

/-- A key that is answered Conflict is refused. -/
theorem refused_of_conflicted (h : Grounded state)
    (hstep : Move.Step (honest digest) state (.conflicted key) next) : Refused key next := by
  cases hstep with
  | conflicted hmissing hknown =>
    refine ⟨h, hmissing.honest, ?_⟩
    obtain (htable | hx) | hexplained | hlatched := hknown
    · exact .inl htable
    · exact .inr (.inl hx)
    · exact .inr (.inr (.inl hexplained.honest))
    · exact .inr (.inr (.inr hlatched))

/-! ## Runs of operations -/

/-- The operation answered Conflict for the key. -/
def Label.Conflicts (label : Label) (key : RecordKey) : Prop :=
  match label.call, label.reply with
  | .appendFacts _ batch, some (.facts (.notApplied _ (.conflict index _))) =>
    ∃ record, batch[index]? = some record ∧ record.member.key = key
  | .appendGating record, some (.gating (.refused _ (.conflict _ _))) => record.member.key = key
  | .lookup original, some (.lookup (.conflict _)) => original = key
  | _, _ => False

/-- The operation answered Committed for a batch with the key, or a gating record of it. -/
def Label.Pays (label : Label) (key : RecordKey) : Prop :=
  match label.call, label.reply with
  | .appendFacts _ batch, some (.facts .committed) => ∃ record ∈ batch, record.member.key = key
  | .appendGating record, some (.gating (.committed _)) => record.member.key = key
  | _, _ => False

/-- The operation called an insert for the key. -/
def Label.Inserts (label : Label) (key : RecordKey) : Prop :=
  ∃ event ∈ label.trace, ∃ member, event.verb.inserts = some member ∧ member.key = key

variable {label : Label} {before after : List Label} {source target last : Core × Rows}

/-- The move behind a Conflict answer. -/
theorem Label.Conflicts.conflicted_mem (h : label.Conflicts key)
    (hanswers : Answers state.1 label moves) : .conflicted key ∈ moves := by
  unfold Label.Conflicts at h
  unfold Answers at hanswers
  split at h
  · rename_i hcall hreply
    rw [hcall, hreply] at hanswers
    obtain ⟨record, hrecord, rfl⟩ := h
    obtain ⟨record', hrecord', hmem⟩ := hanswers
    cases hrecord.symm.trans hrecord'
    exact hmem
  · rename_i hcall hreply
    rw [hcall, hreply] at hanswers
    exact h ▸ hanswers
  · rename_i hcall hreply
    rw [hcall, hreply] at hanswers
    exact h ▸ hanswers
  · exact h.elim

/-- The moves of an operation keep a refused record refused. -/
theorem Refused.run (h : Refused key state)
    (hrun : Run (Move.Step (honest digest)) state moves next) : Refused key next :=
  hrun.invariant (fun hs hmove => hs.step hmove) h

/-- After an operation that answers Conflict for a key, the key is refused. -/
theorem Store.BooksStep.refused (h : Store.BooksStep (honest digest) state label next)
    (hstate : Grounded state) (hconflict : label.Conflicts key) : Refused key next := by
  obtain ⟨moves, hrun, hseen⟩ := h.moves
  obtain ⟨_, _, source, target, -, hfirst, hstep, hrest⟩ :=
    hrun.of_mem (hconflict.conflicted_mem hseen.answers)
  exact (refused_of_conflicted (hstate.run hfirst) hstep).run hrest

/-- No operation answers Committed for a refused key. -/
theorem Refused.not_pays (h : Refused key state)
    (hstep : Store.BooksStep (honest digest) state label next) : ¬ label.Pays key := by
  intro hpays
  obtain ⟨moves, hrun, hseen⟩ := hstep.moves
  have hanswers := hseen.answers
  unfold Label.Pays at hpays
  unfold Answers at hanswers
  split at hpays
  · rename_i hcall hreply
    rw [hcall, hreply] at hanswers
    obtain ⟨pending, hlength, hpaid⟩ := hanswers
    obtain ⟨record, hrecord, hkey⟩ := hpays
    obtain ⟨flag, hflag⟩ := mem_zip_of_mem (List.mem_map_of_mem hrecord) (by simpa using hlength)
    obtain ⟨_, _, source, target, -, hfirst, hmove, -⟩ := hrun.of_mem hpaid
    exact (h.run hfirst).not_paid hmove hflag hkey
  · rename_i hcall hreply
    rw [hcall, hreply] at hanswers
    rcases hanswers with htold | hcommitted
    · obtain ⟨_, _, source, target, -, hfirst, hmove, -⟩ := hrun.of_mem htold
      exact (h.run hfirst).not_told hmove hpays
    · obtain ⟨_, _, source, target, -, hfirst, hmove, -⟩ := hrun.of_mem hcommitted
      exact (h.run hfirst).not_committed hmove hpays
  · exact hpays

/-- No operation calls an insert for a refused key. -/
theorem Refused.not_inserts (h : Refused key state)
    (hstep : Store.BooksStep (honest digest) state label next) : ¬ label.Inserts key := by
  rintro ⟨event, hevent, member, hinserts, hkey⟩
  obtain ⟨moves, hrun, hseen⟩ := hstep.moves
  have hwrites : event.verb.writes = true := by
    cases hverb : event.verb with
    | insert => rfl
    | _ =>
      rw [hverb] at hinserts
      cases hinserts
  obtain ⟨⟨rows, hissued, hrows⟩, -⟩ := hseen.written event hevent hwrites
  obtain ⟨_, _, source, target, -, hfirst, hmove, -⟩ := hrun.of_mem hissued
  exact (h.run hfirst).not_issued hmove (hrows member hinserts) hkey

/-- A refused conflict, over every run against an honest ledger. After an operation has answered
Conflict for a key, no operation answers Committed for it or calls an insert for it, and its
conflict is recalled at every point. -/
theorem run_recalls_conflict {limits : Limits} {address : LedgerId} {rows : Rows}
    (hbefore : Run (Store.BooksStep (honest digest)) (Core.new limits address, rows) before source)
    (hstep : Store.BooksStep (honest digest) source label target)
    (hconflict : label.Conflicts key)
    (hafter : Run (Store.BooksStep (honest digest)) target after last) :
    (∀ later ∈ after, ¬ later.Pays key ∧ ¬ later.Inserts key) ∧ Recalled key last := by
  have hkeeps : ∀ {labels state}, Run (Store.BooksStep (honest digest)) target labels state →
      Refused key state := fun hrun => Store.run_invariant hrun (fun hs hmove => hs.step hmove)
    (hstep.refused (grounded_of_run hbefore) hconflict)
  refine ⟨fun later hmem => ?_, (hkeeps hafter).recalled⟩
  obtain ⟨_, _, _, _, -, hfirst, hlater, -⟩ := hafter.of_mem hmem
  exact ⟨(hkeeps hfirst).not_pays hlater, (hkeeps hfirst).not_inserts hlater⟩

/-- A lookup finds the identity with other content; the conflict is recalled by the table, and an
append of the refused record neither pays nor inserts. -/
theorem run_recalls_conflict_of_lookup :
    ∃ (again : Label) (core : Core), again.call = .appendFacts ⟨0, .armed⟩ [⟨⟨1, 1⟩, none⟩] ∧
      ¬ again.Pays ⟨1, 1⟩ ∧ ¬ again.Inserts ⟨1, 1⟩ ∧
      Recalled ⟨1, 1⟩ (core, [.fact ⟨⟨1, 2⟩, none⟩]) := by
  let remembering : Core × Rows :=
    ((Core.opened ⟨1, 1⟩ 0).remember ⟨1, 1⟩ ⟨.identityContent 1 ⟨1, 2⟩ 1⟩, [.fact ⟨⟨1, 2⟩, none⟩])
  have hlookup : Store.BooksStep (honest fun _ => 0)
      (.opened ⟨1, 1⟩ 0, [.fact ⟨⟨1, 2⟩, none⟩])
      ⟨.lookup ⟨1, 1⟩, [⟨.row 1, some (.got (some ⟨1, 2⟩))⟩, ⟨.explained ⟨1, 1⟩, some (.got none)⟩],
        some (.lookup (.conflict (.cause ⟨.identityContent 1 ⟨1, 2⟩ 1⟩))), none⟩ remembering :=
    ⟨_, .none, ⟨_, .answer ⟨rfl, rfl⟩ (.answer ⟨rfl, rfl⟩ (.ret _ _ _)), rfl, rfl, rfl⟩, rfl⟩
  have hagain : Store.BooksStep (honest fun _ => 0) remembering
      ⟨.appendFacts ⟨0, .armed⟩ [⟨⟨1, 1⟩, none⟩], [⟨.open, some (.got ())⟩,
        ⟨.facts 0 ⟨⟨1, 1⟩, none⟩, some (.got ⟨some ⟨1, 2⟩, none, none, none, false⟩)⟩,
        ⟨.rollback, some .undone⟩], some (.facts (.notApplied _
          (.conflict 0 (.cause ⟨.identityContent 1 ⟨1, 2⟩ 1⟩)))), _⟩ remembering :=
    ⟨_, .none, ⟨_, .answer ⟨trivial, rfl⟩ (.answer ⟨rfl, rfl⟩ (.answer rfl (.ret _ _ _))), rfl, rfl,
      rfl⟩, rfl⟩
  have hrun := run_recalls_conflict (.single (.sessionOpened _ _ _ _)) hlookup rfl (.single hagain)
  exact ⟨_, _, rfl, (hrun.1 _ (List.mem_singleton.mpr rfl)).1,
    (hrun.1 _ (List.mem_singleton.mpr rfl)).2, hrun.2⟩

end NexusOs.Ledger
