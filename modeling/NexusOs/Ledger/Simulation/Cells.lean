import NexusOs.Ledger.Simulation.Basic

/-!
# Operations as runs of moves: `append_cell`

The occupant of C or X is appended, and its cell settled once it is known to be in the
ledger.
-/

namespace NexusOs.Ledger

open List Publish

open Resumption (Op.get_bind_run)
open Transition (Run)

variable {L : Type} {books : Books L} {core : Core} {l l' : L} {worker : Worker}
  {token : CellToken} {occupant : Occupant} {before : Trace} {phase : Phase}
  {latch : Option LatchCause} {latchMoves : List Move} {txn : Txn}

/-- What was tested before the occupant was inserted. -/
structure Appending (books : Books L) (core : Core) (l : L) (cell : Cell)
    (occupant : Occupant) : Prop where
  live : core.Live
  holds : core.Holds cell occupant
  absent : books.truth l (.present occupant) (.got none)

/-- The guard of a cell's append that has issued its insert. -/
def cellGuard (core : Core) (phase : Phase) (latch : Option LatchCause) : Publish :=
  { new core with core := { core with phase := phase, latch := latch }, issued := true }

namespace Appending

variable {cell : Cell}

/-- The insert is issued. -/
theorem issued (h : Appending books core l cell occupant) :
    Move.Step books (core, l) (.issued []) (core, l) := .issued h.live nofun nofun

variable (h : Appending books core l cell occupant)
  (hlatch : LatchedBy books core l latch latchMoves)

include h hlatch

/-- The moves of an append that may have written its row. -/
theorem doubted (hledger : l' = l ∨ l' = books.append l [occupant.row]) :
    Run (Move.Step books) (core, l)
      ([.issued [], .doubted [occupant.row]] ++ (latchMoves ++ [.degraded]))
      ({ core with phase := .needBarrier, latch := latch }, l') := by
  have hdoubtful : ∀ row ∈ [occupant.row], Doubtful books core l row := by
    intro row hrow
    exact .inr ⟨cell, occupant, mem_singleton.mp hrow, h.holds, h.absent⟩
  have hprefix : l' = l ∨ ∃ k, l' = books.append l ([occupant.row].take k) :=
    hledger.imp_right fun heq => ⟨1, heq⟩
  have hlatched := hlatch.run (hledger.imp_right fun heq => ⟨_, heq⟩) rfl rfl rfl
  exact .cons h.issued (.cons (.doubted h.live hdoubtful (.cell h.holds) hprefix)
    (hlatched.append (.single .degraded)))

variable (hwritten : Written before ([.issued []] ++ latchMoves))

include hwritten

/-- The append unwinds once its insert is issued. -/
theorem unwound (hledger : l' = l ∨ l' = books.append l [occupant.row]) :
    Simulates books core l (.appendCell worker token) .cell before
      (.unwound (cellGuard core phase latch)) (l', txn) :=
  .intro rfl rfl (h.doubted hlatch hledger)
    ⟨hwritten.mono (by simp +contextual [subset_def]), by simp [Label.Unwritten], nofun, nofun,
      fun record hmem => by simp [hlatch.not_committed record] at hmem, answers_none _ _ _ _ _⟩

/-- The append returns without knowing whether its row was written. -/
theorem uncertain (hledger : l' = l ∨ l' = books.append l [occupant.row]) :
    Simulates books core l (.appendCell worker token) .cell before
      (.returned (cellGuard core .needBarrier latch) .uncertain) (l', txn) :=
  .intro rfl rfl (h.doubted hlatch hledger) ⟨hwritten.mono (by simp +contextual [subset_def]),
      by simp [Label.Unwritten, Reply.unwritten], nofun, nofun,
      fun record hmem => by simp [hlatch.not_committed record] at hmem, trivial⟩

/-- The append rolls back after a failed insert. -/
theorem failed
    (htxn : ∀ l', Storage.Undecided books l txn l' → l' = l ∨ l' = books.append l [occupant.row]) :
    Simulated books core l (.appendCell worker token) .cell before
      (cellFailed (cellGuard core phase latch)) (l, txn) := by
  refine .rollback (fun l' hl' => ?_) (.ret ?_) (fun l' hl' => .ret ?_)
  · exact h.unwound hlatch (hwritten.snoc_read rfl) (htxn l' hl')
  · refine .intro rfl rfl (.cons h.issued
      ((hlatch.run (.inl rfl) rfl rfl rfl).append (.single .degraded))) ?_
    exact ⟨(hwritten.snoc_read rfl).mono (by simp), fun _ => rfl, nofun, nofun,
      fun record hmem => by simp [hlatch.not_committed record] at hmem, trivial⟩
  · exact h.uncertain hlatch (hwritten.snoc_read rfl) (htxn l' hl')

end Appending

/-- The insert and the commit of a cell's occupant. -/
theorem insertCell_simulated (h : Appending books core l token.cell occupant)
    (hreads : Reads before) :
    Simulated books core l (.appendCell worker token) .cell before
      (insertCell token.cell occupant (.new core)) (l, .none) := by
  have hmem : Move.issued [] ∈ [Move.issued []] := by simp
  have hwritten : ∀ answer, Event.constraint ⟨.insertCell occupant, answer⟩ = false →
      Written (before ++ [⟨.insertCell occupant, answer⟩]) [.issued []] :=
    fun _ hanswer => (hreads.written _).snoc_write hmem nofun (by simp [hanswer])
  have hsame := latchedBy_same books core l
  refine .io (fun world hstep => ?_) (fun answer world hstep => ?_)
  · obtain ⟨l', hl', rfl⟩ := hstep
    exact h.unwound hsame (hwritten _ rfl) (Storage.undecided_single rfl (.inl rfl) hl')
  obtain ⟨hbreaks, rfl⟩ := hstep
  match answer with
  | .inserted seq =>
    have htxn : ∀ l', Storage.Undecided books l
        (Txn.none.insert occupant.row (.inserted seq)) l' →
        l' = l ∨ l' = books.append l [occupant.row] :=
      fun l' hl' => Storage.undecided_single rfl (.inr rfl) hl'
    have hwritten : ∀ answer, Written (before ++ [⟨.insertCell occupant,
        some (.inserted seq)⟩] ++ [⟨.commit, answer⟩]) [.issued []] :=
      fun _ => (hwritten _ rfl).snoc_write hmem nofun nofun
    refine .commit (fun l' hl' => ?_) (.ret ?_) (fun world hworld => ?_)
    · exact h.unwound hsame (hwritten _) (htxn l' hl')
    · refine .intro rfl rfl (.cons h.issued
        (.single (.settled h.live h.holds (.inr ⟨h.absent, rfl⟩)))) ?_
      exact ⟨(hwritten _).mono (by simp), by simp [Label.Unwritten, Reply.unwritten], nofun, nofun,
        by simp, .inl ⟨occupant, h.holds, by simp⟩⟩
    · have hledger : ∀ l', Storage.Undecided books world.1 world.2 l' →
          l' = l ∨ l' = books.append l [occupant.row] :=
        fun l' hl' => htxn l' (hworld.undecided hl')
      refine .rollback (fun l' hl' => ?_) (.ret ?_) (fun l' hl' => .ret ?_)
      · exact h.unwound hsame ((hwritten _).snoc_read rfl) (hledger l' hl')
      · exact h.uncertain hsame ((hwritten _).snoc_read rfl) (hledger _ (.inl rfl))
      · exact h.uncertain hsame ((hwritten _).snoc_read rfl) (hledger l' hl')
  | .constraint =>
    refine .latch h.live.2 ?_
    have hlatch : LatchedBy books core l (some .constraint) [.latched .constraint] :=
      latchedBy_constraint h.live.2 (.cell h.holds) (hbreaks rfl)
    exact h.failed hlatch ((hreads.written _).snoc_write (mem_cons_self ..) nofun (by simp))
      (fun l' hl' => Storage.undecided_single rfl (.inl rfl) hl')
  | .failed =>
    exact h.failed hsame (hwritten _ rfl)
      (fun l' hl' => Storage.undecided_single rfl (.inl rfl) hl')

/-- The transaction of a cell's append. -/
theorem appendOccupant_simulated (hlive : core.Live) (hholds : core.Holds token.cell occupant) :
    Simulated books core l (.appendCell worker token) .cell []
      (appendOccupant token.cell occupant (.new core)) (l, .none) := by
  refine .readNew rfl ⟨rfl, nofun⟩ fun opened _ => ?_
  match opened with
  | .failed | .corrupt =>
    exact .failed (.nil _) fun core' moves hrun =>
      .ret (Quiet.returned ⟨rfl, rfl, rfl, rfl, nofun⟩ rfl hrun trivial)
  | .got () =>
    refine .readNew rfl ⟨rfl, nofun⟩ fun answer hpresent => ?_
    match answer with
    | .got (some seq) =>
      refine .rollback (fun l' hl' => ?_) (.ret ?_) (fun l' hl' => .ret ?_)
      · obtain rfl := Storage.undecided_none.mp hl'
        exact (quiet_new _ _).unwound rfl (.nil _)
      · exact Quiet.returned ⟨rfl, rfl, rfl, rfl, nofun⟩ rfl
          (.single (.settled hlive hholds (.inl ⟨hpresent, rfl⟩)))
          (.inl ⟨occupant, hholds, by simp⟩)
      · obtain rfl := Storage.undecided_none.mp hl'
        exact Quiet.returned ⟨rfl, rfl, rfl, rfl, nofun⟩ rfl
          (.cons .degraded (.single (.settled hlive hholds (.inl ⟨hpresent, rfl⟩))))
          (.inl ⟨occupant, hholds, by simp⟩)
    | .got none => exact insertCell_simulated ⟨hlive, hholds, hpresent⟩ rfl
    | .failed | .corrupt =>
      refine .readFailed (.nil _) fun core' moves hrun => ?_
      exact .rollback_pure ⟨rfl, rfl, rfl, rfl, nofun⟩ rfl hrun (.nil _) (fun _ _ => trivial)

/-- A token that names C or X names an occupant, or an X that is committed. -/
theorem cellOccupant_cases (hnames : (core.names token .c || core.names token .x) = true) :
    (∃ occupant, cellOccupant core token.cell = some (.inl occupant) ∧
        core.Holds token.cell occupant) ∨
      ∃ seq, cellOccupant core token.cell = some (.inr seq) ∧ token.cell = .x ∧
        ∃ n occupant, core.x = some (n, occupant, .committed seq) := by
  rcases Bool.or_eq_true_iff.mp hnames with hnames | hnames
  · obtain ⟨-, hcell, hoccupancy⟩ := Core.names_iff.mp hnames
    cases hc : core.c with
    | none => simp [Core.occupancy, hc] at hoccupancy
    | some entry =>
      refine .inl ⟨entry.2, ?_, .inl ⟨hcell, entry.1, hc⟩⟩
      simp only [cellOccupant, hcell, hc]
  · obtain ⟨-, hcell, hoccupancy⟩ := Core.names_iff.mp hnames
    match hx : core.x with
    | none => simp [Core.occupancy, hx] at hoccupancy
    | some (n, occupant, .built) =>
      refine .inl ⟨occupant, ?_, .inr ⟨hcell, n, hx⟩⟩
      simp only [cellOccupant, hcell, hx]
    | some (n, occupant, .committed seq) =>
      refine .inr ⟨seq, ?_, hcell, n, occupant, rfl⟩
      simp only [cellOccupant, hcell, hx]

/-- `append_cell`. -/
theorem cell_simulated :
    Simulated books core l (.appendCell worker token) .cell []
      (cell worker token (.new core)) (l, .none) := by
  refine .guard rfl trivial fun _ => ?_
  refine .guard rfl trivial fun hnames => ?_
  refine .guard rfl trivial fun hsession => ?_
  refine .guard rfl trivial fun hlatch => ?_
  refine .guard rfl trivial fun _ => ?_
  have hlive : core.Live := ⟨not_not.mp hsession, by simpa using hlatch⟩
  obtain ⟨occupant, hoccupant, hholds⟩ | ⟨seq, hoccupant, hcommitted⟩ :=
    cellOccupant_cases (Bool.eq_true_of_not_eq_false hnames)
  · rw [hoccupant]
    exact appendOccupant_simulated hlive hholds
  · rw [hoccupant]
    exact .idle rfl (.inr hcommitted)

end NexusOs.Ledger
