import NexusOs.Ledger.Persistence

/-!
# Gating records and their corrections

A gating record that may be in the ledger without its caller having been told so stays in U until a
barrier has passed; then it is found not to be in the ledger, or its correction is placed in C
and appended. So no such record is ever left alone, and no record is both told to its caller
and corrected.
-/

namespace NexusOs.Ledger

open List

open Transition (Run)

variable {digest : SetDigest} {state next : Core × Rows} {move : Move} {moves : List Move}
  {key : RecordKey} {member : Member} {record : GatingRecord} {old : Rows} {told : RecordKey → Prop}

/-- A caller was answered Committed for the gating record. -/
def Label.Tells (label : Label) (key : RecordKey) : Prop :=
  ∃ record seq, label.call = .appendGating record ∧ record.member.key = key ∧
    label.reply = some (.gating (.committed seq))

/-- The correction of the record is in C or in the ledger. -/
def Corrected (key : RecordKey) (state : Core × Rows) : Prop :=
  (∃ n seq exit, state.1.c = some (n, .correction key seq exit)) ∨
    ∃ seq exit, .correction key seq exit ∈ state.2

/-- U holds the record, and the ledger has it; or it is corrected. -/
def Attended (member : Member) (state : Core × Rows) : Prop :=
  (∃ n record exit, state.1.u = some (n, .gating record exit) ∧ record.member = member ∧
      state.2.Has member.key) ∨ Corrected member.key state

/-- Every gating record that is in the ledger was there at first, was told to its caller, or is
attended to. -/
structure NoOrphans (old : Rows) (told : RecordKey → Prop) (state : Core × Rows) : Prop where
  cells : state.1.CellsOk
  rows : ∀ member, .gating member ∈ state.2 →
    .gating member ∈ old ∨ told member.key ∨ Attended member state

/-- A correction stays in C until it is in the ledger. -/
theorem Move.Step.corrected_keeps (h : Move.Step (honest digest) state move next)
    (hcorrected : Corrected key state) : Corrected key next := by
  obtain ⟨n, seq, exit, hstate⟩ | ⟨seq, exit, hmem⟩ := hcorrected
  · obtain hsame | ⟨occupant, seq', rfl, hholds, -⟩ | ⟨_, _, _, hresolving, -⟩ := h.c
    · exact .inl ⟨n, seq, exit, hsame.trans hstate⟩
    · obtain ⟨-, n', hc⟩ | ⟨hcell, -⟩ := hholds
      · cases hc.symm.trans hstate
        exact .inr ⟨seq, exit, settled_mem h⟩
      · cases hcell
    · cases hresolving.2.2.1.symm.trans hstate
  · exact .inr ⟨seq, exit, h.grows.subset hmem⟩

/-! ## No orphans -/

/-- The gating rows a move adds are of a record that is committed or held. -/
theorem Enters.gating (h : Enters (honest digest) state move (.gating member)) (hok : state.1.CellsOk) :
    state.1.Ready ∧ state.2.rowById member.key.id = none ∧
      ∃ record, record.member = member ∧
        (move = .committed record ∨ ∃ exit, move = .held (.gating record exit)) := by
  generalize hrow : LedgerRow.gating member = row at h
  cases h with
  | committed hready hadmitted =>
    cases hrow
    exact ⟨hready, hadmitted.honest.2.1, _, rfl, .inl rfl⟩
  | held hready hadmitted =>
    cases hrow
    exact ⟨hready, hadmitted.honest.2.1, _, rfl, .inr ⟨_, rfl⟩⟩
  | cell hholds =>
    have hnone := hok.member?_row hholds
    rw [← hrow] at hnone
    cases hnone
  | fact | acknowledgement => cases hrow

/-- Where U's record goes when U is emptied: its correction is placed. -/
theorem attended_of_resolved {n : Nat} {exit : Exit} (h : Move.Step (honest digest) state move next)
    (hu : state.1.u = some (n, .gating record exit)) (hhas : state.2.Has record.member.key)
    (hresolves : move.resolves = true) (hmember : record.member = member) :
    Attended member next := by
  obtain ⟨row, hrow, hdigest⟩ := hhas
  cases h with
  | @released core l occupant hresolving htest =>
    obtain ⟨-, -, -, -, n', hu'⟩ := hresolving
    cases hu'.symm.trans hu
    have hnone : none = l.rowById record.member.key.id := htest
    cases hnone.trans hrow
  | corrected hresolving =>
    obtain ⟨-, -, -, -, n', hu'⟩ := hresolving
    cases hu'.symm.trans hu
    exact .inr (.inl ⟨_, _, _, by rw [← hmember]; rfl⟩)
  | @contradicted core l record' row' exit' hresolving hroom htest hcontent =>
    obtain ⟨-, -, -, -, n', hu'⟩ := hresolving
    cases hu'.symm.trans hu
    have hfound : some row' = l.rowById record.member.key.id := htest
    cases hfound.trans hrow
    exact absurd hdigest hcontent
  | acknowledged hresolving =>
    obtain ⟨-, -, -, -, n', hu'⟩ := hresolving
    cases hu'.symm.trans hu
  | _ => cases hresolves

/-- A record that is attended to stays so. -/
theorem Move.Step.attended_keeps (h : Move.Step (honest digest) state move next)
    (hattended : Attended member state) : Attended member next := by
  obtain ⟨n, record, exit, hu, hmember, hhas⟩ | hcorrected := hattended
  · obtain hsame | ⟨-, hresolves⟩ | ⟨_, -, hready, -⟩ := h.u
    · obtain ⟨more, hmore⟩ := h.grows
      exact .inl ⟨n, record, exit, hsame.trans hu, hmember, hmore ▸ hhas.append⟩
    · exact attended_of_resolved h hu (hmember ▸ hhas) hresolves hmember
    · cases hready.2.2.1.symm.trans hu
  · exact .inr (h.corrected_keeps hcorrected)

/-- Every move keeps the ledger free of orphans, if what it commits is told. -/
theorem NoOrphans.step (h : NoOrphans old told state)
    (hstep : Move.Step (honest digest) state move next)
    (htold : ∀ record, move = .committed record → told record.member.key) :
    NoOrphans old told next := by
  refine ⟨hstep.cellsOk h.cells, fun member hmem => ?_⟩
  obtain hold | henters := hstep.entered hmem
  · exact (h.rows member hold).imp_right (.imp_right fun hattended =>
    hstep.attended_keeps hattended)
  obtain ⟨hready, hnew, record, rfl, rfl | ⟨exit, rfl⟩⟩ := henters.gating h.cells
  · exact .inr (.inl (htold record rfl))
  -- the record was not in the ledger, so that it is found by its identity
  cases hstep with
  | held _ _ _ _ hledger =>
    refine .inr (.inr (.inl ⟨_, record, exit, rfl, rfl, ?_⟩))
    rcases hledger with rfl | rfl
    · exact absurd rfl (Rows.rowById_eq_none.mp hnew _ hmem _ rfl)
    · exact Rows.has_of_new hnew rfl

theorem NoOrphans.run (h : NoOrphans old told state)
    (hrun : Run (Move.Step (honest digest)) state moves next)
    (htold : ∀ record, .committed record ∈ moves → told record.member.key) :
    NoOrphans old told next := by
  induction hrun with
  | nil => exact h
  | cons hstep _ ih =>
    exact ih (h.step hstep fun record hmove => htold record (hmove ▸ mem_cons_self ..))
      fun record hmem => htold record (mem_cons_of_mem _ hmem)

/-- A run of operations keeps the ledger free of orphans. -/
theorem NoOrphans.labels {labels : List Label} (h : NoOrphans old told state)
    (hrun : Run (Store.BooksStep (honest digest)) state labels next)
    (htold : ∀ label ∈ labels, ∀ key, label.Tells key → told key) : NoOrphans old told next := by
  induction hrun with
  | nil => exact h
  | cons hstep _ ih =>
    obtain ⟨moves, hmoves, hseen⟩ := hstep.moves
    refine ih (h.run hmoves fun record hmem => ?_)
      fun label hmem => htold label (mem_cons_of_mem _ hmem)
    obtain ⟨hcall, seq, hreply⟩ := hseen.committed record hmem
    exact htold _ (mem_cons_self ..) _ ⟨record, seq, hcall, rfl, hreply⟩

/-! ## Not both told and corrected -/

/-- The record is in the ledger, and neither U nor C is about it. -/
structure Told (key : RecordKey) (state : Core × Rows) : Prop where
  has : state.2.Has key
  u : ∀ n record exit, state.1.u = some (n, .gating record exit) → record.member.key ≠ key
  c : ∀ n seq exit, state.1.c ≠ some (n, .correction key seq exit)

/-- A gating record is told only where U and C are empty, and the ledger then has it. -/
theorem told_of_move (h : Move.Step (honest digest) state move next)
    (hmove : move = .told record ∨ move = .committed record) :
    Told record.member.key next ∧ ¬ Corrected record.member.key state := by
  have hempty : ∀ {core : Core} {rows : Rows}, core.Ready → rows.Has record.member.key →
      Told record.member.key (core, rows) := by
    rintro core rows ⟨-, -, hu, hc, -⟩ hhas
    refine ⟨hhas, fun n record' exit hstate => ?_, fun n seq exit hstate => ?_⟩
    · rw [show core.u = none from hu] at hstate
      cases hstate
    · rw [show core.c = none from hc] at hstate
      cases hstate
  have hnot : ∀ {core : Core} {rows : Rows}, core.Ready →
      (∀ seq exit, .correction record.member.key seq exit ∉ rows) →
      ¬ Corrected record.member.key (core, rows) := by
    rintro core rows ⟨-, -, -, hc, -⟩ hnone (⟨n, seq, exit, hstate⟩ | ⟨seq, exit, hmem⟩)
    · rw [show core.c = none from hc] at hstate
      cases hstate
    · exact hnone seq exit hmem
  rcases hmove with rfl | rfl
  · cases h with
    | told hready htest =>
      obtain ⟨hhas, hnone⟩ := htest.honest
      exact ⟨hempty hready hhas, hnot hready (hnone rfl)⟩
  · cases h with
    | committed hready htest =>
      obtain ⟨-, hnew, -, -, hnone⟩ := htest.honest
      exact ⟨hempty hready (Rows.has_of_new hnew rfl), hnot hready (hnone rfl)⟩

/-- A record that is told stays clear of U and C. -/
theorem Move.Step.told_keeps (h : Move.Step (honest digest) state move next)
    (htold : Told key state) : Told key next := by
  obtain ⟨more, hmore⟩ := h.grows
  refine ⟨hmore ▸ htold.has.append, fun n record exit hu => ?_, fun n seq exit hc => ?_⟩
  · obtain hsame | ⟨hnone, -⟩ | ⟨occupant, rfl, -, -, hheld⟩ := h.u
    · exact htold.u n record exit (hsame.symm.trans hu)
    · cases hnone.symm.trans hu
    -- a record is held only where its identity is not in the ledger
    cases hheld.symm.trans hu
    rintro rfl
    obtain ⟨row, hrow, -⟩ := htold.has
    cases h with
    | held _ _ htest => cases htest.2.honest.2.1.symm.trans hrow
  · obtain hsame | ⟨_, _, -, -, hnone⟩ | ⟨record, _, _, hresolving, -, hfilled⟩ := h.c
    · exact htold.c n seq exit (hsame.symm.trans hc)
    · cases hnone.symm.trans hc
    · obtain ⟨-, -, -, -, n', hu⟩ := hresolving
      cases hfilled.symm.trans hc
      exact htold.u n' record _ hu rfl

/-! ## Runs of operations -/

variable {label : Label} {before after : List Label} {middle last : Core × Rows}

/-- The move behind a Committed answer. -/
theorem Label.Tells.exists_move (h : label.Tells key) (hanswers : Answers state.1 label moves) :
    ∃ record, record.member.key = key ∧ (.told record ∈ moves ∨ .committed record ∈ moves) := by
  obtain ⟨record, seq, hcall, hkey, hreply⟩ := h
  rw [Answers, hcall, hreply] at hanswers
  exact ⟨record, hkey, hanswers⟩

/-- An operation that tells a record leaves it told, and finds it not corrected. -/
theorem Store.BooksStep.tells (h : Store.BooksStep (honest digest) state label next)
    (htells : label.Tells key) : Told key next ∧ ¬ Corrected key state := by
  obtain ⟨moves, hrun, hseen⟩ := h.moves
  obtain ⟨record, rfl, hmoves⟩ := htells.exists_move hseen.answers
  obtain ⟨move, hmem, hmove⟩ : ∃ move ∈ moves, move = .told record ∨ move = .committed record := by
    rcases hmoves with hmem | hmem
    · exact ⟨_, hmem, .inl rfl⟩
    · exact ⟨_, hmem, .inr rfl⟩
  obtain ⟨first, rest, source, target, -, hfirst, hstep, hrest⟩ := hrun.of_mem hmem
  obtain ⟨htold, hnot⟩ := told_of_move hstep hmove
  refine ⟨hrest.invariant (fun hs hm => hm.told_keeps hs) htold, fun hcorrected => hnot ?_⟩
  exact hfirst.invariant (fun hs hm => hm.corrected_keeps hs) hcorrected

/-- Gating records, over every run against an honest ledger. A gating record that was added to
the ledger and told to no caller is held by U, or its correction is in C or in the ledger. And
if a correction is in C at some point, its record is told to no caller, before or after. -/
theorem run_attends_gating {limits : Limits} {address : LedgerId} {rows : Rows}
    (hbefore : Run (Store.BooksStep (honest digest)) (Core.new limits address, rows) before middle)
    (hafter : Run (Store.BooksStep (honest digest)) middle after last) :
    (∀ member, .gating member ∈ last.2 → .gating member ∉ rows →
      (∀ label ∈ before ++ after, ¬ label.Tells member.key) →
      (∃ n record exit, last.1.u = some (n, .gating record exit) ∧ record.member = member) ∨
        (∃ n seq exit, last.1.c = some (n, .correction member.key seq exit)) ∨
        ∃ seq exit, .correction member.key seq exit ∈ last.2) ∧
    ∀ key n seq exit, middle.1.c = some (n, .correction key seq exit) →
      ∀ label ∈ before ++ after, ¬ label.Tells key := by
  refine ⟨fun member hmem hnew huntold => ?_, fun key n seq exit hc label hmem htells => ?_⟩
  · have hfirst : NoOrphans rows (fun key => ∃ label ∈ before ++ after, label.Tells key)
        (.new limits address, rows) :=
      ⟨(Core.new_sound limits address).1, fun member hmem => .inl hmem⟩
    have hlast := hfirst.labels (hbefore.append hafter) fun label hmem key htells =>
      ⟨label, hmem, htells⟩
    obtain hold | ⟨label, hlabel, htells⟩ | ⟨n, record, exit, hu, hmember, -⟩ | hcorrected :=
      hlast.rows member hmem
    · exact absurd hold hnew
    · exact absurd htells (huntold label hlabel)
    · exact .inl ⟨n, record, exit, hu, hmember⟩
    · exact .inr hcorrected
  · rcases mem_append.mp hmem with hmem | hmem
    · obtain ⟨_, _, source, target, -, -, hstep, hrest⟩ := hbefore.of_mem hmem
      have htold : Told key middle := Store.run_invariant hrest
        (fun hs hmove => hmove.told_keeps hs) (hstep.tells htells).1
      exact htold.c n seq exit hc
    · obtain ⟨_, _, source, target, -, hfirst, hstep, -⟩ := hafter.of_mem hmem
      refine (hstep.tells htells).2 (Store.run_invariant hfirst
        (fun hs hmove => hmove.corrected_keeps hs) ?_)
      exact .inl ⟨n, seq, exit, hc⟩

/-- The trace of a gating append whose commit unwinds. -/
def unwoundGating : Label :=
  ⟨.appendGating ⟨⟨1, 1⟩, none⟩, [⟨.open, some (.got ())⟩,
    ⟨.facts 0 ⟨⟨1, 1⟩, none⟩, some (.got ⟨none, none, none, none, false⟩)⟩,
    ⟨.insert 0 ⟨⟨1, 1⟩, none⟩, some (.inserted 1)⟩, ⟨.commit, none⟩], none, none⟩

/-- A gating append unwinds at its commit, which had succeeded: the record stays in U. -/
theorem run_attends_gating_of_unwound :
    ∃ last : Core × Rows, .gating ⟨⟨1, 1⟩, none⟩ ∈ last.2 ∧
      ((∃ n record exit, last.1.u = some (n, .gating record exit) ∧
          record.member = ⟨⟨1, 1⟩, none⟩) ∨
        (∃ n seq exit, last.1.c = some (n, .correction ⟨1, 1⟩ seq exit)) ∨
        ∃ seq exit, .correction ⟨1, 1⟩ seq exit ∈ last.2) := by
  have hgating : Store.BooksStep (honest fun _ => 0) (.opened ⟨1, 1⟩ 0, []) unwoundGating
      ((Core.opened ⟨1, 1⟩ 0).holdU (.gating ⟨⟨1, 1⟩, none⟩ .unwound), [.gating ⟨⟨1, 1⟩, none⟩]) :=
    ⟨_, .none, ⟨_, .answer ⟨trivial, rfl⟩ (.answer ⟨rfl, rfl⟩ (.answer ⟨nofun, rfl⟩
      (.unwind ⟨_, .inr (.inl rfl), rfl⟩))), rfl, rfl, rfl⟩, rfl⟩
  have hrun := run_attends_gating
    (.cons (.sessionOpened (honest fun _ => 0) ⟨1, 1⟩ 0 []) (.single hgating)) (.nil _)
  refine ⟨_, mem_singleton.mpr rfl, hrun.1 _ (mem_singleton.mpr rfl) (by simp) ?_⟩
  rintro label hmem ⟨record, seq, -, -, hreply⟩
  simp only [append_nil, mem_cons, not_mem_nil, or_false] at hmem
  rcases hmem with rfl | rfl
  · cases hreply
  · cases hreply

end NexusOs.Ledger
