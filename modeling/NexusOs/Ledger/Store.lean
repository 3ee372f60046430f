import NexusOs.Ledger.Storage

/-!
# Runs of the store

A store operation takes the core to the core its guard leaves. `Store.Step` is one operation
against a storage of which nothing is assumed; `Store.BooksStep` is one operation against the
storage of some books, whose ledger it may change. Runs are runs of these steps, labelled by
what the caller sees.
-/

namespace NexusOs.Ledger

open Resumption (Exec)

/-- One store operation as its caller sees it: the calls it made, its result unless it
unwound, and how it counted the lent ticket. -/
structure Label where
  call : Call
  trace : Trace
  reply : Option Reply
  counted : Option Counted

variable {W L : Type}

/-- A new store whose session has opened. -/
def Core.opened (limits : Limits) (address : LedgerId) : Core :=
  { Core.new limits address with session := .open }

/-- The guard of an ended operation, after its drop. -/
def Label.Ends (label : Label) (step : W → Event → W → Prop) (core : Core) (world : W)
    (guard : Publish) (world' : W) : Prop :=
  ∃ outcome, Exec step (label.call.prog core) world label.trace outcome world' ∧
    label.reply = outcome.value ∧ guard = outcome.state.drop ∧ label.counted = guard.counted

namespace Store

/-- The storage of which nothing is assumed. -/
def AnyStorage (_ : Unit) (_ : Event) (_ : Unit) : Prop := True

theorem AnyStorage.answer {α : Type} {state : Publish} {verb : Verb}
    {next : verb.Answer → Resumption.Prog Verb Verb.Answer Publish α} {reply : verb.Answer}
    {trace : Trace} {outcome : Resumption.Outcome Publish α}
    (h : Exec AnyStorage (next reply) () trace outcome ()) :
    Exec AnyStorage (.call state verb next) () (⟨verb, some reply⟩ :: trace) outcome () :=
  .answer trivial h

/-- One operation against any storage: every verb may answer anything, or unwind. -/
def Step (core : Core) (label : Label) (core' : Core) : Prop :=
  ∃ guard, label.Ends AnyStorage core () guard () ∧ core' = guard.core

/-- One operation against the storage of `books`. -/
def BooksStep (books : Books L) (state : Core × L) (label : Label) (next : Core × L) : Prop :=
  ∃ guard txn, label.Ends (Storage.Step books label.call.family) state.1 (state.2, .none) guard
      (next.2, txn) ∧ next.1 = guard.core

/-- A new store opens its session. -/
theorem BooksStep.sessionOpened (books : Books L) (limits : Limits) (address : LedgerId)
    (ledger : L) : BooksStep books (Core.new limits address, ledger)
      ⟨.sessionOpened, [], some (.sessionOpened true), none⟩
      (Core.opened limits address, ledger) :=
  ⟨_, .none, ⟨_, .ret _ _ _, rfl, rfl, rfl⟩, rfl⟩

/-- Books that promise nothing allow what any storage allows. -/
theorem Step.booksStep {core core' : Core} {label : Label} (h : Step core label core') :
    ∃ size, BooksStep Books.any (core, 0) label (core', size) := by
  obtain ⟨guard, ⟨outcome, hexec, hend⟩, hcore⟩ := h
  obtain ⟨⟨size, txn⟩, hexec'⟩ := hexec.of_total (Storage.step_any label.call.family) (0, .none)
  exact ⟨size, guard, txn, ⟨outcome, hexec', hend⟩, hcore⟩

end Store

end NexusOs.Ledger
