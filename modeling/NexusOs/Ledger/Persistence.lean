import NexusOs.Ledger.Honest

/-!
# What an append says was written

Where `facts`, `present` and `recheck` are true of the ledger, a result or a ticket that says
`NotWritten` means that the ledger is unchanged, and a Committed result means that every record
offered is in the ledger.
-/

namespace NexusOs.Ledger

open List Faithful

open Transition (Run)

variable {digest : SetDigest} {books : Books Rows} {state next : Core × Rows} {move : Move} {moves : List Move}
  {row : LedgerRow} {rows : Rows} {member : Member} {record : GatingRecord}

/-- How a row enters a ledger: what was tested of it, and by which move. -/
inductive Enters (books : Books Rows) (state : Core × Rows) : Move → LedgerRow → Prop where
  | fact {move : Move} {member : Member}
      (h : Admitted books state.1 state.2 member false) :
      Enters books state move (.fact member)
  | committed {record : GatingRecord} (hready : state.1.Ready)
      (h : Admitted books state.1 state.2 record.member true) :
      Enters books state (.committed record) (.gating record.member)
  | held {record : GatingRecord} {exit : Exit} (hready : state.1.Ready)
      (h : Admitted books state.1 state.2 record.member true) :
      Enters books state (.held (.gating record exit)) (.gating record.member)
  | acknowledgement {move : Move} {set : SetFacts} {nonce : Bytes 16} (hready : state.1.Ready)
      (h : Passed books state.2 set) :
      Enters books state move (.acknowledgement set nonce)
  | cell {move : Move} {cell : Cell} {occupant : Occupant} (h : state.1.Holds cell occupant) :
      Enters books state move occupant.row

variable [Faithful books]

section

variable (h : Move.Step books state move next)

include h

/-- Moves only append to a ledger. -/
theorem Move.Step.appended :
    ∃ more, next.2 = state.2 ++ more ∧ ∀ row ∈ more, Enters books state move row := by
  have hnone : ∃ more, state.2 = state.2 ++ more ∧ ∀ row ∈ more, Enters books state move row :=
    ⟨[], (append_nil _).symm, by simp⟩
  cases h with
  | @held core l _ occupant hready _ htest _ hledger =>
    rcases hledger with rfl | rfl
    · exact hnone
    refine ⟨_, append _ _, fun row hnew => ?_⟩
    obtain rfl := mem_singleton.mp hnew
    cases occupant with
    | gating record exit => exact .held hready htest.2
    | acknowledgement set nonce => exact .acknowledgement hready htest
    | correction | explanation => exact htest.elim
  | committed hready htest =>
    refine ⟨_, append _ _, fun row hnew => ?_⟩
    obtain rfl := mem_singleton.mp hnew
    exact .committed hready htest
  | paid _ _ hinsert =>
    refine ⟨_, append _ _, fun row hnew => ?_⟩
    obtain ⟨member, rfl, hpending⟩ := mem_pendingRows.mp hnew
    exact .fact (hinsert member hpending)
  | doubted _ htest _ hledger =>
    rcases hledger with rfl | ⟨k, rfl⟩
    · exact hnone
    refine ⟨_, append _ _, fun row hnew => ?_⟩
    obtain ⟨member, rfl, hadmitted⟩ | ⟨cell, occupant, rfl, hholds, -⟩ :=
      htest row (mem_of_mem_take hnew)
    · exact .fact hadmitted
    · exact .cell hholds
  | acked hready htest =>
    refine ⟨_, append _ _, fun row hnew => ?_⟩
    obtain rfl := mem_singleton.mp hnew
    exact .acknowledgement hready htest
  | settled _ hholds htest =>
    rcases htest with ⟨-, rfl⟩ | ⟨-, rfl⟩
    · exact hnone
    refine ⟨_, append _ _, fun row hnew => ?_⟩
    obtain rfl := mem_singleton.mp hnew
    exact .cell hholds
  | _ => exact hnone

theorem Move.Step.grows : state.2 <+: next.2 := by
  obtain ⟨more, hmore, -⟩ := h.appended
  exact ⟨more, hmore.symm⟩

/-- A row is in the ledger after a move if it was before, or enters it. -/
theorem Move.Step.entered (hmem : row ∈ next.2) : row ∈ state.2 ∨ Enters books state move row := by
  obtain ⟨more, hmore, henters⟩ := h.appended
  rw [hmore] at hmem
  exact (mem_append.mp hmem).imp_right (henters row)

end

/-- A run of moves only appends. -/
theorem moves_grow (h : Run (Move.Step books) state moves next) : state.2 <+: next.2 :=
  h.relates (fun s t => s.2 <+: t.2) (fun _ => prefix_refl _) List.IsPrefix.trans Move.Step.grows

variable {labels : List Label}

/-- Operations only append. -/
theorem labels_grow (h : Run (Store.BooksStep books) state labels next) : state.2 <+: next.2 :=
  Store.run_relates (fun s t => s.2 <+: t.2) (fun _ => prefix_refl _) List.IsPrefix.trans
    Move.Step.grows h

/-- What a move left in the ledger is still there after the moves that follow, if appending
rows preserves it. -/
theorem after_move (kept : Rows → Prop) (h : Run (Move.Step books) state moves next)
    (hkept : ∀ {rows more}, rows <+: more → kept rows → kept more) (hmem : move ∈ moves)
    (hmove : ∀ {s t}, Move.Step books s move t → kept t.2) : kept next.2 := by
  obtain ⟨before, after, source, target, rfl, -, hstep, hafter⟩ := h.of_mem hmem
  exact hkept (moves_grow hafter) (hmove hstep)

/-- An X marked committed has its row in the ledger. -/
def XInLedger (state : Core × Rows) : Prop :=
  ∀ n occupant seq, state.1.x = some (n, occupant, .committed seq) → occupant.row ∈ state.2

/-- The row of a settled occupant is in the ledger. -/
theorem settled_mem {cell : Cell} {occupant : Occupant} {seq : Seq}
    (h : Move.Step books state (.settled cell occupant seq) next) : occupant.row ∈ next.2 := by
  cases h with
  | settled _ _ htest =>
    rcases htest with ⟨hpresent, rfl⟩ | ⟨-, rfl⟩
    · exact Rows.mem_of_findSeq_is (present hpresent).symm
    · rw [append]
      exact mem_append_right _ (mem_singleton.mpr rfl)

/-- Moves keep a committed X in the ledger. -/
theorem Move.Step.xInLedger (h : Move.Step books state move next) (hx : XInLedger state) :
    XInLedger next := by
  intro n occupant seq hnext
  obtain hsame | ⟨hnone, -⟩ | ⟨_, _, _, rfl, -, hsettled⟩ | ⟨_, _, -, -, -, hfilled⟩ := h.x
  · exact h.grows.subset (hx n occupant seq (hsame.symm.trans hnext))
  · cases hnone.symm.trans hnext
  · cases hsettled.symm.trans hnext
    exact settled_mem h
  · cases hfilled.symm.trans hnext

/-- What every run keeps: the invariant of the cells, and a committed X in the ledger. -/
structure Grounded (state : Core × Rows) : Prop where
  cells : state.1.CellsOk
  x : XInLedger state

theorem Grounded.step (h : Grounded state) (hstep : Move.Step books state move next) :
    Grounded next :=
  ⟨hstep.cellsOk h.cells, hstep.xInLedger h.x⟩

theorem Grounded.run (h : Grounded state)
    (hrun : Run (Move.Step books) state moves next) : Grounded next :=
  hrun.invariant (fun hs hstep => hs.step hstep) h

/-- Every run of a new store keeps to it. -/
theorem grounded_of_run {limits : Limits} {address : LedgerId}
    (hrun : Run (Store.BooksStep books) (Core.new limits address, rows) labels state) :
    Grounded state :=
  Store.run_invariant hrun (fun hs hmove => hs.step hmove)
    ⟨(Core.new_sound limits address).1, nofun⟩

/-- What a Committed result promises of the ledger it leaves: every record that was offered is
in it. -/
def Label.Kept (label : Label) (core : Core) (rows : Rows) : Prop :=
  match label.call, label.reply with
  | .appendFacts _ batch, some (.facts .committed) =>
    ∀ record ∈ batch, rows.Contains record.member.key
  | .appendGating record, some (.gating (.committed _)) => rows.Contains record.member.key
  | .appendAcknowledgement snapshot, some (.acknowledgement (.committed _)) =>
    .acknowledgement snapshot.set snapshot.nonce ∈ rows
  | .appendCell _ token, some (.cell (.committed _)) =>
    ∃ occupant, core.occupant token.cell = some occupant ∧ occupant.row ∈ rows
  | _, _ => True

theorem Rows.Contains.mono {more : Rows} {key : RecordKey} (h : rows.Contains key)
    (hgrow : rows <+: more) : more.Contains key := by
  obtain ⟨row, hmem, hrow⟩ := h
  exact ⟨row, hgrow.subset hmem, hrow⟩

theorem contains_of_mem (hmem : row ∈ rows) (hrow : row.member? = some member) :
    rows.Contains member.key :=
  ⟨row, hmem, member, hrow, rfl⟩

/-- Every member of a batch that was paid is in the ledger. -/
theorem paid_contains {members : List (Member × Bool)} {pending : Bool}
    (h : Move.Step books state (.paid members) next) (hmem : (member, pending) ∈ members) :
    next.2.Contains member.key := by
  cases h with
  | paid _ hpresent =>
    rw [append]
    cases pending with
    | false => exact (hpresent member hmem).honest.1.append.contains
    | true =>
      have hrow : .fact member ∈ pendingRows members :=
        mem_map.mpr ⟨_, mem_filter.mpr ⟨hmem, rfl⟩, rfl⟩
      exact contains_of_mem (mem_append_right _ hrow) rfl

/-- A member of a list is paired with something in every list of the same length. -/
theorem mem_zip_of_mem {α β : Type} {a : α} {as : List α} {bs : List β} (h : a ∈ as)
    (hlength : bs.length = as.length) : ∃ b, (a, b) ∈ as.zip bs := by
  obtain ⟨i, hi, rfl⟩ := mem_iff_getElem.mp h
  exact ⟨bs[i], mem_iff_getElem.mpr ⟨i, by simp [hi, hlength], by simp⟩⟩

theorem told_contains (h : Move.Step books state (.told record) next) :
    next.2.Contains record.member.key := by
  cases h with
  | told _ htest => exact htest.honest.1.contains

theorem committed_contains (h : Move.Step books state (.committed record) next) :
    next.2.Contains record.member.key := by
  cases h with
  | committed =>
    rw [append]
    exact contains_of_mem (mem_append_right _ (mem_singleton.mpr rfl)) rfl

theorem acked_mem {set : SetFacts} {nonce : Bytes 16}
    (h : Move.Step books state (.acked set nonce) next) : .acknowledgement set nonce ∈ next.2 := by
  cases h with
  | acked =>
    rw [append]
    exact mem_append_right _ (mem_singleton.mpr rfl)

/-- A Committed result of one operation keeps its promise. -/
theorem Store.BooksStep.kept {label : Label} (h : Store.BooksStep books state label next)
    (hx : XInLedger state) : label.Kept state.1 next.2 := by
  obtain ⟨moves, hrun, hseen⟩ := h.moves
  have hanswers := hseen.answers
  have hcontains : ∀ {key move}, move ∈ moves →
      (∀ {s t}, Move.Step books s move t → t.2.Contains key) → next.2.Contains key :=
    fun hmem hmove =>
      after_move (Rows.Contains · _) hrun (fun hgrow hkept => hkept.mono hgrow) hmem hmove
  have hmemRow : ∀ {row move}, move ∈ moves →
      (∀ {s t}, Move.Step books s move t → row ∈ t.2) → row ∈ next.2 :=
    fun hmem hmove => after_move (_ ∈ ·) hrun (fun hgrow hkept => hgrow.subset hkept) hmem hmove
  unfold Label.Kept
  unfold Answers at hanswers
  split
  · rename_i hcall hreply
    rw [hcall, hreply] at hanswers
    obtain ⟨pending, hlength, hpaid⟩ := hanswers
    intro record hrecord
    obtain ⟨flag, hflag⟩ := mem_zip_of_mem (mem_map_of_mem hrecord) (by simpa using hlength)
    exact hcontains hpaid fun hstep => paid_contains hstep hflag
  · rename_i hcall hreply
    rw [hcall, hreply] at hanswers
    rcases hanswers with htold | hcommitted
    · exact hcontains htold told_contains
    · exact hcontains hcommitted committed_contains
  · rename_i hcall hreply
    rw [hcall, hreply] at hanswers
    exact hmemRow hanswers acked_mem
  · rename_i hcall hreply
    rw [hcall, hreply] at hanswers
    obtain ⟨occupant, hholds, hsettled⟩ | ⟨hcell, n, occupant, hstate⟩ := hanswers
    · exact ⟨occupant, hholds.occupant, hmemRow hsettled settled_mem⟩
    · refine ⟨occupant, by simp [hcell, Core.occupant, hstate], ?_⟩
      exact (moves_grow hrun).subset (hx n occupant _ hstate)
  · trivial

/-- What the store says of persistence is true, after every run against a ledger whose `facts`,
`present` and `recheck` are true: where the result or the lent ticket says that nothing was
written, the ledger is unchanged; where the result is Committed, every record offered is in the
ledger; and a ticket that names a conflicting member says that nothing was written. -/
theorem run_reports_persistence {limits : Limits} {address : LedgerId} {rows : Rows}
    {labels : List Label} {label : Label}
    (hrun : Run (Store.BooksStep (reporting digest)) (Core.new limits address, rows) labels state)
    (hstep : Store.BooksStep (reporting digest) state label next) :
    (label.Unwritten → next.2 = state.2) ∧ label.Kept state.1 next.2 ∧
      ∀ counted, label.counted = some counted → counted.conflictMember.isSome →
        counted.persistence = .notWritten := by
  obtain ⟨moves, -, hseen⟩ := hstep.moves
  exact ⟨hseen.unwritten, hstep.kept (grounded_of_run hrun).x, hseen.named⟩

/-- A fact appended to an empty ledger is in the ledger when its append answers Committed. -/
theorem run_reports_persistence_of_append : Rows.Contains [.fact ⟨⟨1, 1⟩, none⟩] ⟨1, 1⟩ := by
  have happend : Store.BooksStep (reporting fun _ => 0)
      (.opened ⟨1, 1⟩ 0, [])
      ⟨.appendFacts ⟨0, .armed⟩ [⟨⟨1, 1⟩, none⟩], [⟨.open, some (.got ())⟩,
        ⟨.facts 0 ⟨⟨1, 1⟩, none⟩, some (.got ⟨none, none, none, none, false⟩)⟩,
        ⟨.insert 0 ⟨⟨1, 1⟩, none⟩, some (.inserted 1)⟩, ⟨.commit, some .durable⟩],
        some (.facts .committed), none⟩
      (.opened ⟨1, 1⟩ 0, [.fact ⟨⟨1, 1⟩, none⟩]) :=
    ⟨_, .none, ⟨_, .answer ⟨trivial, rfl⟩ (.answer ⟨rfl, rfl⟩
      (.answer ⟨nofun, rfl⟩ (.answer rfl (.ret _ _ _)))), rfl, rfl, rfl⟩, rfl⟩
  have hkept := (run_reports_persistence (.single (.sessionOpened _ _ _ _)) happend).2.1
  exact hkept ⟨⟨⟨1, 1⟩, none⟩⟩ (mem_singleton.mpr rfl)

end NexusOs.Ledger
