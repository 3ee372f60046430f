import NexusOs.Ledger.Simulation

/-!
# The invariant of the cells

Between operations U, C and X keep to `Core.CellsOk`, whatever the storage answers and wherever
it unwinds. No move breaks it, so the latch for a broken cell invariant is never set.
-/

namespace NexusOs.Ledger

open Transition (Run)
open Store (AnyStorage)

variable {L : Type} {books : Books L} {core core' : Core} {move : Move}

namespace Core.CellsOk

/-- A healthy store has U empty. -/
theorem u_of_healthy (h : core.CellsOk) (hphase : core.phase = .healthy) : core.u = none := by
  cases hu : core.u with
  | none => rfl
  | some entry => exact absurd hphase (h.u_alone (by simp [hu])).2.2

/-- Emptying U and becoming healthy keeps what C and X hold. -/
theorem releaseU (hc : ∀ n occupant, core.c = some (n, occupant) →
      ∃ about seq exit, occupant = .correction about seq exit)
    (hx : ∀ n occupant stage, core.x = some (n, occupant, stage) →
      ∃ original cause, occupant = .explanation original cause) :
    (Publish.releaseU core).CellsOk where
  u_alone := nofun
  resolving := nofun
  u_kind := nofun
  c_kind := hc
  x_kind := hx

variable {occupant : Occupant} {cell : Cell}

/-- C and X hold corrections and explanations. -/
theorem holds_kind (h : core.CellsOk) (hholds : core.Holds cell occupant) :
    (∃ about seq exit, occupant = .correction about seq exit) ∨
      ∃ original cause, occupant = .explanation original cause := by
  obtain ⟨-, n, hc⟩ | ⟨-, n, hx⟩ := hholds
  · exact .inl (h.c_kind n occupant hc)
  · exact .inr (h.x_kind n occupant _ hx)

/-- What C or X holds is not the row of a record. -/
theorem member?_row (h : core.CellsOk) (hholds : core.Holds cell occupant) :
    occupant.row.member? = none := by
  obtain ⟨_, _, _, rfl⟩ | ⟨_, _, rfl⟩ := h.holds_kind hholds
  · rfl
  · rfl

/-- A settled C is empty, and a settled X holds its explanation. -/
theorem settle (h : core.CellsOk) (cell : Cell) (seq : Seq) :
    (Publish.settle cell seq core).CellsOk := by
  unfold Publish.settle
  split
  · exact ⟨fun hu => ⟨rfl, (h.u_alone hu).2⟩, h.resolving, h.u_kind, nofun, h.x_kind⟩
  cases hx : core.x with
  | none => exact h
  | some entry =>
    obtain ⟨n, occupant, stage⟩ := entry
    obtain ⟨original, cause, rfl⟩ := h.x_kind n occupant stage hx
    refine ⟨fun hu => ?_, h.resolving, h.u_kind, h.c_kind, fun _ _ _ heq => ?_⟩
    · rw [(h.u_alone hu).2.1] at hx
      cases hx
    · cases heq
      exact ⟨original, cause, rfl⟩

end Core.CellsOk

/-- Every move keeps the invariant. -/
theorem Move.Step.cellsOk {state next : Core × L}
    (h : Move.Step books state move next) (hok : state.1.CellsOk) : next.1.CellsOk := by
  cases h with
  | opened | «sealed» | spent | issued | told | committed | paid | doubted | learned |
    conflicted | forgot | taken => exact ⟨hok.1, hok.2, hok.3, hok.4, hok.5⟩
  | degraded =>
    refine ⟨fun hu => ⟨(hok.u_alone hu).1, (hok.u_alone hu).2.1, ?_⟩, ?_, hok.u_kind, hok.c_kind,
      hok.x_kind⟩ <;> simp [Core.degrade]
  | latched =>
    simp only [Core.setLatch]
    split
    · exact ⟨hok.1, hok.2, hok.3, hok.4, hok.5⟩
    · exact hok
  | @held core _ _ occupant hready _ htest =>
    refine ⟨fun _ => ⟨hready.2.2.2.1, hready.2.2.2.2, ?_⟩, ?_, ?_, hok.c_kind, hok.x_kind⟩
    · simp [Core.holdU]
    · simp [Core.holdU]
    rintro n _ ⟨⟩
    cases occupant with
    | gating record exit => exact .inr ⟨record, exit, rfl, htest.1⟩
    | acknowledgement set nonce => exact .inl ⟨set, nonce, rfl⟩
    | correction | explanation => exact htest.elim
  | @explained core _ _ _ _ hphase =>
    have hu := hok.u_of_healthy hphase
    refine ⟨fun hsome => ?_, hok.resolving, hok.u_kind, hok.c_kind, ?_⟩
    · rw [show (core.putX _ _).u = core.u from rfl, hu] at hsome
      cases hsome
    · rintro _ _ _ ⟨⟩
      exact ⟨_, _, rfl⟩
  | acked =>
    simp only [Publish.raiseFrontier]
    split
    · exact ⟨hok.1, hok.2, hok.3, hok.4, hok.5⟩
    · exact hok
  | @passed core =>
    refine ⟨fun hu => ?_, fun hphase => ?_, hok.u_kind, hok.c_kind, hok.x_kind⟩
    · have hsome : core.u.isSome = true := hu
      refine ⟨(hok.u_alone hu).1, (hok.u_alone hu).2.1, ?_⟩
      simp [hsome]
    · by_contra hnone
      simp [hnone] at hphase
  | released => exact .releaseU hok.c_kind hok.x_kind
  | corrected =>
    refine .releaseU ?_ hok.x_kind
    rintro _ _ ⟨⟩
    exact ⟨_, _, _, rfl⟩
  | contradicted =>
    refine .releaseU hok.c_kind ?_
    rintro _ _ _ ⟨⟩
    exact ⟨_, _, rfl⟩
  | acknowledged =>
    simp only [Publish.raiseFrontier]
    split
    · exact .releaseU hok.c_kind hok.x_kind
    · exact .releaseU hok.c_kind hok.x_kind
  | settled => exact hok.settle _ _
  | emptied =>
    exact ⟨fun hu => ⟨(hok.u_alone hu).1, rfl, (hok.u_alone hu).2.2⟩, hok.resolving, hok.u_kind,
      hok.c_kind, by simp⟩

/-- The invariant of the cells, and that the latch for breaking it is not set. -/
def Core.Sound (core : Core) : Prop := core.CellsOk ∧ core.latch ≠ some .cellInvariant

theorem Core.new_sound (limits : Limits) (address : LedgerId) : (Core.new limits address).Sound :=
  ⟨⟨nofun, nofun, nofun, nofun, nofun⟩, nofun⟩

theorem Move.Step.sound {state next : Core × L}
    (h : Move.Step books state move next) (hsound : state.1.Sound) : next.1.Sound := by
  refine ⟨h.cellsOk hsound.1, ?_⟩
  obtain hsame | ⟨cause, -, hlatch, hcause⟩ := h.latch
  · rw [hsame]
    exact hsound.2
  · rw [hlatch]
    rintro ⟨⟩
    exact hcause hsound.1

theorem Store.Step.sound {label : Label} (h : Store.Step core label core') (hsound : core.Sound) :
    core'.Sound :=
  h.invariant Core.Sound (fun hs hmove => hmove.sound hs) hsound

/-- The cells keep their invariant between the operations of every run, whatever the storage
answers and wherever it unwinds; the latch for a broken cell invariant is never set. -/
theorem run_keeps_cells {limits : Limits} {address : LedgerId} {labels : List Label}
    (h : Run Store.Step (Core.new limits address) labels core) :
    core.CellsOk ∧ core.latch ≠ some .cellInvariant :=
  h.invariant (fun hs hstep => hstep.sound hs) (Core.new_sound limits address)

/-- A gating append that unwinds at its commit leaves its record in U. -/
theorem run_keeps_cells_of_unwound_gating :
    ∃ core : Core, core.u = some (1, .gating ⟨⟨1, 1⟩, none⟩ .unwound) ∧ core.CellsOk ∧
      core.latch ≠ some .cellInvariant := by
  have hopened : Store.Step (.new ⟨1, 1⟩ 0)
      ⟨.sessionOpened, [], some (.sessionOpened true), none⟩ _ :=
    ⟨_, ⟨_, .ret _ _ _, rfl, rfl, rfl⟩, rfl⟩
  have hgating : Store.Step { Core.new ⟨1, 1⟩ 0 with session := .open }
      ⟨.appendGating ⟨⟨1, 1⟩, none⟩, [⟨.open, some (.got ())⟩,
        ⟨.facts 0 ⟨⟨1, 1⟩, none⟩, some (.got ⟨none, none, none, none, false⟩)⟩,
        ⟨.insert 0 ⟨⟨1, 1⟩, none⟩, some (.inserted 1)⟩, ⟨.commit, none⟩], none, none⟩ _ :=
    ⟨_, ⟨_, AnyStorage.answer (AnyStorage.answer (AnyStorage.answer (.unwind trivial))), rfl, rfl,
      rfl⟩,
      rfl⟩
  exact ⟨_, rfl, run_keeps_cells (.cons hopened (.single hgating))⟩

end NexusOs.Ledger
