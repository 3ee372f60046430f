import NexusOs.Ledger.Admission

/-!
# A closed ledger

A store that is latched or sealed stays so. It writes nothing, fills no cell and never admits
again, whatever is asked of it and whatever the storage answers.
-/

namespace NexusOs.Ledger

open System

open Transition (Run)
open Exchange (Attempt Flight)

variable {L : Type} {books : Books L} {state next : Core × L} {move : Move} {core core' base : Core}
  {label : Label}

/-- The store is latched or sealed. -/
def Core.Closed (core : Core) : Prop := core.latch.isSome ∨ core.session = .sealed

theorem Core.Closed.not_live (h : core.Closed) : ¬ core.Live := by
  rintro ⟨hsession, hlatch⟩
  rcases h with h | h
  · rw [hlatch] at h
    cases h
  · rw [hsession] at h
    cases h

/-! ## Moves -/

section

variable (h : Move.Step books state move next)

include h

/-- A latch keeps its first cause. -/
theorem Move.Step.latch_keeps {cause : LatchCause} (hlatch : state.1.latch = some cause) :
    next.1.latch = some cause := by
  obtain hsame | ⟨_, hnone, -⟩ := h.latch
  · rw [hsame, hlatch]
  · cases hnone.symm.trans hlatch

/-- A sealed session stays sealed. -/
theorem Move.Step.sealed_keeps (hsealed : state.1.session = .sealed) :
    next.1.session = .sealed := by
  cases h with
  | opened hsession => cases hsession.symm.trans hsealed
  | «sealed» => rfl
  | latched | acked | acknowledged =>
    simpa only [setLatch_eq, raiseFrontier_eq, Publish.releaseU] using hsealed
  | settled _ hholds => exact (settle_frame hholds _).2.1.trans hsealed
  | _ => exact hsealed

/-- A number of a cell is spent only in a live store. -/
theorem Move.Step.occupancies : next.1.occupancies = state.1.occupancies ∨ state.1.Live := by
  cases h with
  | spent hready | held hready => exact .inr hready.1
  | explained hlive => exact .inr hlive
  | corrected hresolving | contradicted hresolving => exact .inr hresolving.1
  | latched | acked | acknowledged =>
    exact .inl (by simp only [setLatch_eq, raiseFrontier_eq, Publish.releaseU])
  | settled _ hholds => exact .inl (settle_frame hholds _).2.2.2.2.1
  | _ => exact .inl rfl

/-- A cell keeps its occupant or is emptied, unless the store is live. -/
theorem Move.Step.occupant (cell : Cell) :
    next.1.occupant cell = state.1.occupant cell ∨ next.1.occupant cell = none ∨ state.1.Live := by
  cases cell with
  | u =>
    obtain hsame | ⟨hnone, -⟩ | ⟨_, -, hready, -⟩ := h.u
    · exact .inl (by simp [Core.occupant, hsame])
    · exact .inr (.inl (by simp [Core.occupant, hnone]))
    · exact .inr (.inr hready.1)
  | c =>
    obtain hsame | ⟨_, _, -, -, hnone⟩ | ⟨_, _, _, hresolving, -⟩ := h.c
    · exact .inl (by simp [Core.occupant, hsame])
    · exact .inr (.inl (by simp [Core.occupant, hnone]))
    · exact .inr (.inr hresolving.1)
  | x =>
    obtain hsame | ⟨hnone, -⟩ | ⟨_, _, _, -, hstate, hnext⟩ | ⟨_, _, hlive, -⟩ := h.x
    · exact .inl (by simp [Core.occupant, hsame])
    · exact .inr (.inl (by simp [Core.occupant, hnone]))
    · exact .inl (by simp [Core.occupant, hstate, hnext])
    · exact .inr (.inr hlive)

end

/-- The store is closed, and since `base` no cell was filled. -/
structure Stays (base core : Core) : Prop where
  closed : core.Closed
  occupancies : core.occupancies = base.occupancies
  cells : ∀ cell, core.occupant cell = base.occupant cell ∨ core.occupant cell = none

theorem Core.Closed.stays (h : core.Closed) : Stays core core := ⟨h, rfl, fun _ => .inl rfl⟩

/-- Every move keeps a closed store closed, and fills no cell of it. -/
theorem Stays.step (h : Stays base state.1) (hstep : Move.Step books state move next) :
    Stays base next.1 := by
  have hlive := h.closed.not_live
  refine ⟨?_, ?_, fun cell => ?_⟩
  · rcases h.closed with hlatch | hsealed
    · obtain ⟨cause, hcause⟩ := Option.isSome_iff_exists.mp hlatch
      exact .inl (by simp [hstep.latch_keeps hcause])
    · exact .inr (hstep.sealed_keeps hsealed)
  · exact (hstep.occupancies.resolve_right hlive).trans h.occupancies
  obtain hsame | hnone | hlive' := hstep.occupant cell
  · rw [hsame]
    exact h.cells cell
  · exact .inr hnone
  · exact absurd hlive' hlive

/-- No operation on a closed store writes. -/
theorem Store.Step.not_writes (h : Store.Step core label core') (hclosed : core.Closed)
    {event : Event} (hmem : event ∈ label.trace) : event.verb.writes = false := by
  by_contra hwrites
  rw [Bool.not_eq_false] at hwrites
  obtain ⟨size, hbooks⟩ := h.booksStep
  obtain ⟨moves, hrun, hseen⟩ := hbooks.moves
  obtain ⟨⟨rows, hissued, -⟩, -⟩ := hseen.written event hmem hwrites
  obtain ⟨_, _, source, target, -, hfirst, hmove, -⟩ := hrun.of_mem hissued
  have hkeeps : ∀ {s m t}, Stays core s.1 → Move.Step .any s m t → Stays core t.1 :=
    fun hs hmove => hs.step hmove
  have hsource : Stays core source.1 := hfirst.invariant hkeeps hclosed.stays
  cases hmove with
  | issued hlive => exact hsource.closed.not_live hlive

/-- The store was sealed: `session_sealed` returned true. -/
def Label.Seals (label : Label) : Prop :=
  label.call = .sessionSealed ∧ label.reply = some (.sessionSealed true)

/-- A store that was sealed is closed. -/
theorem Store.Step.seals (h : Store.Step core label core') (hseals : label.Seals) :
    core'.Closed := by
  obtain ⟨size, hbooks⟩ := h.booksStep
  obtain ⟨moves, hrun, hseen⟩ := hbooks.moves
  have hsealed := hseen.answers
  rw [Answers, hseals.1, hseals.2] at hsealed
  obtain ⟨_, _, source, target, -, -, hmove, hrest⟩ := hrun.of_mem hsealed
  have htarget : target.1.session = .sealed := by
    cases hmove with
    | «sealed» => rfl
  have hkeeps : ∀ {s m t}, s.1.session = .sealed → Move.Step .any s m t →
      t.1.session = .sealed := fun hs hmove => hmove.sealed_keeps hs
  exact .inr (hrest.invariant hkeeps htarget)

/-! ## The system -/

variable {limits : Limits} {address : LedgerId} {before after : List (Attempt Request Word)}
  {middle last : System × List (Flight Request Word)}

/-- A closed ledger never writes, over every run of a ledger's loops. A latch stays, with its
first cause. Once the store is latched, or `session_sealed` has returned true, no later store
operation calls an insert or a commit; no number of a cell is spent, and each cell has the
occupant it had or none; and the word never admits. -/
theorem run_closed_never_writes
    (hbefore : Run service.Step (new limits address, []) before middle)
    (hafter : Run service.Step middle after last) :
    (∀ cause, middle.1.core.latch = some cause → last.1.core.latch = some cause) ∧
    ((middle.1.core.latch.isSome ∨ ∃ label guard lent,
        .publish label guard lent ∈ Exchange.requests before ∧ label.Seals) →
      (∀ label guard lent, .publish label guard lent ∈ Exchange.requests after →
        ∀ event ∈ label.trace, event.verb.writes = false) ∧
      last.1.core.occupancies = middle.1.core.occupancies ∧
      (∀ cell, last.1.core.occupant cell = middle.1.core.occupant cell ∨
        last.1.core.occupant cell = none) ∧
      admits last.1.word = false) := by
  have hfly := Exchange.flying_nil service (new limits address)
  have hflying : service.Flying middle.1 (middle.2.map Flight.request) :=
    hbefore.invariant (fun hs ht => ht.flying hs) hfly
  have hfirst := Exchange.run_atomic hbefore hfly
  have hrest := Exchange.run_atomic hafter hflying
  refine ⟨fun cause hcause => ?_, fun hclosed => ?_⟩
  · exact core_invariant (fun core => core.latch = some cause)
      (fun hs hmove => hmove.latch_keeps hs) hrest hcause
  have hmiddle : middle.1.core.Closed := by
    obtain hlatch | ⟨label, guard, lent, hmem, hseals⟩ := hclosed
    · exact .inl hlatch
    · obtain ⟨_, _, _, _, -, -, hstep, hrun⟩ := hfirst.of_mem hmem
      exact core_invariant Core.Closed (fun hs hmove => (hs.stays.step hmove).closed) hrun
        ((step_of_publish hstep).seals hseals)
  have hstays : ∀ {requests system}, Run service.Atomic middle.1 requests system →
      Stays middle.1.core system.core := fun hrun =>
    core_invariant (Stays middle.1.core) (fun hs hmove => hs.step hmove) hrun hmiddle.stays
  refine ⟨fun label guard lent hmem event hevent => ?_, (hstays hrest).occupancies,
    (hstays hrest).cells, ?_⟩
  · obtain ⟨_, _, _, _, -, hrun, hstep, -⟩ := hrest.of_mem hmem
    exact (step_of_publish hstep).not_writes (hstays hrun).closed hevent
  by_contra hadmits
  obtain ⟨hopen, -, -⟩ := of_admits _ (Bool.not_eq_false _ ▸ hadmits)
  have hlast : last.1.Accounted := (hfirst.append hrest).invariant
    (fun hs hstep => hs.atomic hstep) (accounted_new limits address)
  obtain ⟨-, hsession, hlatch, -⟩ := Core.flags_eq_open (hlast.status.symm.trans hopen)
  exact (hstays hrest).closed.not_live ⟨hsession, hlatch⟩

/-- A store that was opened and sealed. -/
def sealedCore : Core := { Core.opened ⟨1, 1⟩ 0 with session := .sealed }

/-- A store is opened and sealed. A gating append is then refused: it calls no verb, and the word
does not admit. -/
theorem run_closed_never_writes_of_sealed :
    ∃ last : System, last.core.session = .sealed ∧ admits last.word = false := by
  let sealing : Request :=
    .publish ⟨.sessionSealed, [], some (.sessionSealed true), none⟩
      { Publish.new (.opened ⟨1, 1⟩ 0) with core := sealedCore, done := true } none
  let gating : Request :=
    .publish ⟨.appendGating ⟨⟨1, 1⟩, none⟩, [],
      some (.gating (.refused .notWritten (.entry .notOpen))), none⟩
      { Publish.new sealedCore with done := true } none
  have hsealing : ((new ⟨1, 1⟩ 0).serve opening).Ready sealing :=
    ⟨⟨_, .ret _ _ _, rfl, rfl, rfl⟩, rfl⟩
  have hgating : (((new ⟨1, 1⟩ 0).serve opening).serve sealing).Ready gating :=
    ⟨⟨_, .ret _ _ _, rfl, rfl, rfl⟩, rfl⟩
  have hbefore := (run_alone ready_opening (by decide)).append
    (run_alone hsealing (by decide))
  have hafter := run_alone hgating (by decide)
  have hclosed := (run_closed_never_writes hbefore hafter).2
    (.inr ⟨_, _, _, .tail _ (.head _), rfl, rfl⟩)
  exact ⟨_, rfl, hclosed.2.2.2⟩

end NexusOs.Ledger
