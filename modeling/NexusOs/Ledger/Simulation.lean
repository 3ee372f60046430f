import NexusOs.Ledger.Simulation.Control
import NexusOs.Ledger.Simulation.Hold
import NexusOs.Ledger.Simulation.Cells
import NexusOs.Ledger.Simulation.Batch

/-!
# Every store operation is a run of moves

`BooksStep.moves` is the simulation: one operation against the storage of some books, with
every answer those books allow and an unwind at any verb, is a run of moves that matches what
the caller saw. What every move preserves, every operation and every run preserve
(`BooksStep.invariant`, `Step.invariant`).
-/

namespace NexusOs.Ledger

open Resumption (Prog Outcome Op)
open Transition (Run)

variable {L α : Type} {books : Books L} {core : Core} {l : L}

/-- A simulated body makes a simulated operation: setting `done` is all that is left. -/
theorem prog_simulated {call : Call} {wrap : α → Reply} {body : Op α}
    (hbody : call.body = wrap <$> body)
    (h : Simulated books core l call wrap [] (body (.new core)) (l, .none)) :
    (call.prog core).All (Storage.Step books call.family) (l, .none)
      fun trace outcome world => ∃ moves,
        Run (Move.Step books) (core, l) moves (outcome.state.drop.core, world.1) ∧
        Seen core l world.1 ⟨call, trace, outcome.value, outcome.state.drop.counted⟩ moves := by
  rw [Call.prog, hbody, Resumption.Op.map_run, Prog.bind_assoc]
  refine Prog.all_bind fun trace outcome world hexec => ?_
  have hsim := h trace outcome world hexec
  cases outcome with
  | unwound op => exact hsim
  | returned op value =>
    simp only [Prog.bind_ret, Prog.all_ret, List.append_nil]
    exact hsim

/-- Every store operation is a run of moves. -/
theorem Call.simulated (call : Call) :
    (call.prog core).All (Storage.Step books call.family) (l, .none)
      fun trace outcome world => ∃ moves,
        Run (Move.Step books) (core, l) moves (outcome.state.drop.core, world.1) ∧
        Seen core l world.1 ⟨call, trace, outcome.value, outcome.state.drop.counted⟩ moves := by
  cases call with
  | sessionOpened => exact prog_simulated rfl sessionOpened_simulated
  | sessionSealed => exact prog_simulated rfl sessionSealed_simulated
  | appendFacts ticket batch => exact prog_simulated rfl (facts_simulated ticket batch)
  | appendGating record => exact prog_simulated rfl (gating_simulated record)
  | lookup key => exact prog_simulated rfl (lookup_simulated key)
  | explain key => exact prog_simulated rfl (explain_simulated key)
  | snapshot nonce => exact prog_simulated rfl (snapshot_simulated nonce)
  | appendAcknowledgement shown => exact prog_simulated rfl (acknowledgement_simulated shown)
  | barrier worker => exact prog_simulated rfl (barrier_simulated worker)
  | resolve worker token => exact prog_simulated rfl resolve_simulated
  | appendCell worker token => exact prog_simulated rfl cell_simulated
  | empty worker token => exact prog_simulated rfl (empty_simulated worker token)

/-- The lent ticket passes its check where it belongs to this ledger and is Armed. -/
theorem Publish.ticketFault_eq_none {ticket : Ticket} :
    Publish.ticketFault core ticket = none ↔
      ticket.shared = core.shared.address ∧ ticket.state = .armed := by
  unfold Publish.ticketFault
  by_cases hshared : ticket.shared = core.shared.address
  · by_cases hstate : ticket.state = .armed
    · simp [hstate]
    · simp [hshared]
  · simp [hshared]

namespace Store

variable {state next : Core × L} {label : Label} {core' : Core} {inv : Core × L → Prop}
  {labels : List Label}

/-- An operation against the storage of some books is a run of moves. -/
theorem BooksStep.moves (h : BooksStep books state label next) :
    ∃ moves, Run (Move.Step books) state moves next ∧ Seen state.1 state.2 next.2 label moves := by
  obtain ⟨guard, txn, ⟨outcome, hexec, hreply, hguard, hcounted⟩, hcore⟩ := h
  obtain ⟨moves, hrun, hseen⟩ := label.call.simulated _ _ _ hexec
  subst hguard
  rw [← hreply, ← hcounted] at hseen
  rw [← hcore] at hrun
  exact ⟨moves, hrun, hseen⟩

/-- What every move preserves, every operation preserves. -/
theorem BooksStep.invariant (hmove : ∀ {s m t}, inv s → Move.Step books s m t → inv t)
    (hstate : inv state) (h : BooksStep books state label next) : inv next := by
  obtain ⟨moves, hrun, -⟩ := h.moves
  exact hrun.invariant hmove hstate

/-- What every move preserves, every run of operations preserves. -/
theorem run_invariant (h : Run (BooksStep books) state labels next)
    (hmove : ∀ {s m t}, inv s → Move.Step books s m t → inv t) (hstate : inv state) : inv next :=
  h.invariant (fun hs hstep => hstep.invariant hmove hs) hstate

/-- A preorder that every move respects is respected by every run of operations. -/
theorem run_relates (rel : Core × L → Core × L → Prop)
    (hrefl : ∀ s, rel s s) (htrans : ∀ {s t u}, rel s t → rel t u → rel s u)
    (hmove : ∀ {s m t}, Move.Step books s m t → rel s t)
    (h : Run (BooksStep books) state labels next) : rel state next := by
  refine h.relates rel hrefl htrans fun hstep => ?_
  obtain ⟨moves, hrun, -⟩ := hstep.moves
  exact hrun.relates rel hrefl htrans hmove

/-- What every move of books that promise nothing preserves, every operation preserves. -/
theorem Step.invariant (inv : Core → Prop)
    (hmove : ∀ {s m t}, inv s.1 → Move.Step Books.any s m t → inv t.1) (hcore : inv core)
    (h : Step core label core') : inv core' := by
  obtain ⟨size, hbooks⟩ := h.booksStep
  obtain ⟨moves, hrun, -⟩ := hbooks.moves
  have hinv : ∀ {s m t}, inv s.1 → Move.Step .any s m t → inv t.1 := hmove
  exact hrun.invariant hinv hcore

/-- No operation changes which ledger this is. -/
theorem Step.shared (h : Step core label core') : core'.shared = core.shared :=
  h.invariant (fun after => after.shared = core.shared) (fun hs hmove => hmove.shared.trans hs) rfl

end Store

/-- An operation that counts a ticket is an append of facts whose ticket passed its check. -/
theorem Label.Ends.lent {label : Label} {guard : Publish}
    (h : label.Ends Store.AnyStorage core () guard ()) (hcounted : guard.counted.isSome) :
    ∃ ticket batch, label.call = .appendFacts ticket batch ∧
      Publish.ticketFault core ticket = none := by
  obtain ⟨size, hbooks⟩ := Store.Step.booksStep ⟨guard, h, rfl⟩
  obtain ⟨moves, -, hseen⟩ := hbooks.moves
  obtain ⟨call, trace, reply, counted⟩ := label
  obtain ⟨outcome, hexec, -, hguard, hlabel⟩ := h
  have hlends : call.lends = true := hseen.lent (hlabel ▸ hcounted)
  cases call with
  | appendFacts ticket batch =>
    refine ⟨ticket, batch, rfl, ?_⟩
    -- a ticket that fails its check is never taken by the guard
    by_contra hfault
    obtain ⟨fault, hfault⟩ := Option.ne_none_iff_exists'.mp hfault
    simp only [Call.prog, Call.body, Publish.facts, Op.map_run, Op.bind_run, Op.get_run,
      Prog.bind_ret, Publish.new_core, hfault] at hexec
    cases hexec
    subst hguard
    cases hcounted
  | _ => cases hlends

end NexusOs.Ledger
