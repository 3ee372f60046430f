import NexusOs.Ledger.Accounting

/-!
# What admission says

The word's status is always that of the core as of the last completed store operation, and no
step on the word is lost. So a word that admits says that this core was open, healthy and
unlatched with every cell empty, that no handover fault was ever raised, and that every ticket that
was ever Counted has been confirmed.
-/

namespace NexusOs.Ledger

open List System

open Transition (Run)
open Exchange (Attempt Flight)

/-- The ticket a request makes Counted. -/
def Request.counts : Request → Option Nat
  | .expire index ⟨_, .armed⟩ => some index
  | .publish _ guard (some (index, _)) => guard.counted.map fun _ => index
  | _ => none

namespace System

variable {system next : System} {request : Request} {index : Nat}

/-- The ticket is Counted, or was when it was dropped. -/
def Waits (system : System) (index : Nat) : Prop :=
  ∃ handed, system.tickets[index]? = some handed ∧ (handed.isCounted = true ∨ handed.isLost = true)

/-- Where nothing waits to be taken over, no ticket does. -/
theorem Accounted.not_waits (h : system.Accounted) (hzero : Ledger.unapplied system.word = 0) :
    ¬ system.Waits index := by
  rintro ⟨handed, hhanded, hwaits⟩
  have hmem := mem_of_getElem? hhanded
  have hcount := h.unapplied
  rcases hwaits with hwaits | hwaits
  · have hpos : 0 < system.counted := countP_pos_iff.mpr ⟨_, hmem, hwaits⟩
    omega
  · have hpos : 0 < system.lost := countP_pos_iff.mpr ⟨_, hmem, hwaits⟩
    omega

/-- A ticket in use that is replaced. -/
theorem waits_set {old new : Handed} (h : system.tickets[index]? = some old)
    (hnew : new.isCounted = true ∨ new.isLost = true) {core : Core} {word : Word} :
    Waits ⟨core, word, system.tickets.set index new⟩ index := by
  obtain ⟨hlt, -⟩ := List.getElem?_eq_some_iff.mp h
  exact ⟨new, by simp [hlt], hnew⟩

/-- A ticket that is made Counted waits to be taken over. -/
theorem waits_of_counts (hstep : service.Atomic system request next)
    (hcounts : request.counts = some index) : next.Waits index := by
  obtain ⟨hready, rfl⟩ := hstep
  cases request with
  | expire i ticket =>
    obtain ⟨shared, state⟩ := ticket
    cases state with
    | armed =>
      cases hcounts
      exact waits_set hready (.inl rfl)
    | counted | settled => cases hcounts
  | publish label guard lent =>
    cases lent with
    | none => cases hcounts
    | some lent =>
      obtain ⟨counted, hcounted, rfl⟩ := Option.map_eq_some_iff.mp hcounts
      obtain ⟨i, shared, hlent, hticket⟩ := armed_of_counted hready (by simp [hcounted])
      cases hlent
      refine waits_set hticket (.inl ?_)
      simp [Publish.ticketAfter, hcounted, Handed.isCounted]
  | arm | confirm | drop => cases hcounts

/-- A ticket in use that waits is Counted. -/
theorem counted_of_waits {ticket : Ticket}
    (h : Handed.isCounted ⟨ticket, false⟩ = true ∨ Handed.isLost ⟨ticket, false⟩ = true) :
    ∃ shared counted, ticket = ⟨shared, .counted counted⟩ := by
  obtain ⟨shared, state⟩ := ticket
  cases state with
  | counted counted => exact ⟨shared, counted, rfl⟩
  | armed | settled => simp [Handed.isCounted, Handed.isLost] at h

/-- A ticket waits until it is confirmed. -/
theorem Waits.atomic (h : system.Waits index) (hstep : service.Atomic system request next) :
    (∃ ticket, request = .confirm index ticket) ∨ next.Waits index := by
  obtain ⟨hready, rfl⟩ := hstep
  obtain ⟨handed, hhanded, hwaits⟩ := h
  by_cases huses : some index ∈ request.uses
  · cases request with
    | arm => cases huses
    | confirm i ticket =>
      obtain rfl : index = i := by simpa [Request.uses] using huses
      exact .inl ⟨ticket, rfl⟩
    | expire i ticket =>
      obtain rfl : index = i := by simpa [Request.uses] using huses
      obtain rfl := Option.some.inj (hhanded.symm.trans hready)
      obtain ⟨shared, counted, rfl⟩ := counted_of_waits hwaits
      exact .inr ⟨_, hhanded, hwaits⟩
    | drop i ticket =>
      obtain rfl : index = i := by simpa [Request.uses] using huses
      obtain rfl := Option.some.inj (hhanded.symm.trans hready.1)
      obtain ⟨shared, counted, rfl⟩ := counted_of_waits hwaits
      exact .inr (waits_set hhanded (.inr rfl))
    | publish label guard lent =>
      -- the operation was lent a Counted ticket, so it does not count it again
      have huncounted : guard.counted = none := by
        by_contra hcounted
        obtain ⟨i, shared, rfl, hticket⟩ :=
          armed_of_counted hready (Option.isSome_iff_ne_none.mpr hcounted)
        obtain rfl : index = i := by simpa [Request.uses] using huses
        obtain rfl := Option.some.inj (hhanded.symm.trans hticket)
        simp [Handed.isCounted, Handed.isLost] at hwaits
      refine .inr ⟨handed, ?_, hwaits⟩
      show (system.ticketsAfter (.publish label guard lent))[index]? = some handed
      rw [ticketsAfter_uncounted hready huncounted, hhanded]
  · exact .inr ⟨handed, getElem?_ticketsAfter huses hhanded, hwaits⟩

theorem Waits.run {served : List Request} (h : system.Waits index)
    (hrun : Run service.Atomic system served next) :
    (∃ ticket, .confirm index ticket ∈ served) ∨ next.Waits index := by
  induction hrun with
  | nil => exact .inr h
  | cons hstep _ ih =>
    obtain ⟨ticket, rfl⟩ | hnext := h.atomic hstep
    · exact .inl ⟨ticket, mem_cons_self ..⟩
    · obtain ⟨ticket, hmem⟩ | hlast := ih hnext
      · exact .inl ⟨ticket, mem_cons_of_mem _ hmem⟩
      · exact .inr hlast

end System

variable {limits : Limits} {address : LedgerId} {before after : List (Attempt Request Word)}
  {middle last : System × List (Flight Request Word)}

/-- Admission is sound, over every run of a ledger's loops. The status of the word is that of the
core as of the last completed store operation, and the word is what the served requests
make of 0, one after the other. So if the word admits, that core was healthy, open and unlatched
with every cell empty; the handover fault was not set at any earlier point; and every ticket that
was made Counted was confirmed. -/
theorem run_admits_soundly
    (hbefore : Run service.Step (new limits address, []) before middle)
    (hafter : Run service.Step middle after last) :
    status last.1.word = last.1.core.flags ∧
      last.1.word = (Exchange.requests (before ++ after)).foldl
        (fun word request => request.step word) 0 ∧
      (admits last.1.word = true →
        (last.1.core.phase = .healthy ∧ last.1.core.session = .open ∧ last.1.core.latch = none ∧
          last.1.core.u = none ∧ last.1.core.c = none ∧ last.1.core.x = none) ∧
        handoverFault middle.1.word = false ∧
        ∀ request ∈ Exchange.requests (before ++ after), ∀ index, request.counts = some index →
          ∃ ticket, .confirm index ticket ∈ Exchange.requests (before ++ after)) := by
  have hfly := Exchange.flying_nil service (new limits address)
  have hnew := accounted_new limits address
  have hrun := Exchange.run_atomic (hbefore.append hafter) hfly
  have hkeep : ∀ {s request t}, s.Accounted → service.Atomic s request t → t.Accounted :=
    fun hs hstep => hs.atomic hstep
  have hlast : last.1.Accounted := hrun.invariant hkeep hnew
  refine ⟨hlast.status, Exchange.word_eq hrun, fun hadmits => ?_⟩
  obtain ⟨hopen, hfault, hzero⟩ := of_admits _ hadmits
  refine ⟨Core.flags_eq_open (hlast.status.symm.trans hopen), ?_, fun request hmem index hcounts =>
    ?_⟩
  · have hmiddle : middle.1.Accounted := (Exchange.run_atomic hbefore hfly).invariant hkeep hnew
    have hflying : service.Flying middle.1 (middle.2.map Flight.request) :=
      hbefore.invariant (fun hs ht => ht.flying hs) hfly
    rw [handoverFault_run hafter hflying hmiddle, Bool.or_eq_false_iff] at hfault
    exact hfault.1
  · obtain ⟨served, rest, source, target, heq, -, hstep, hrest⟩ := hrun.of_mem hmem
    have hwaits := waits_of_counts hstep hcounts
    obtain ⟨ticket, hconfirm⟩ | hwaiting := hwaits.run hrest
    · exact ⟨ticket, by rw [heq]; simp [hconfirm]⟩
    · exact absurd hwaiting (hlast.not_waits hzero)

/-- The guard of the operation that opens the session of a new store. -/
def openingGuard : Publish :=
  { Publish.new (Core.new ⟨1, 1⟩ 0) with core := Core.opened ⟨1, 1⟩ 0, done := true }

/-- The publication of that operation. -/
def opening : Request :=
  .publish ⟨.sessionOpened, [], some (.sessionOpened true), none⟩ openingGuard none

theorem ready_opening : (new ⟨1, 1⟩ 0).Ready opening := ⟨⟨_, .ret _ _ _, rfl, rfl, rfl⟩, rfl⟩

/-- The session is opened while another thread arms a ticket: the first exchange of the publication
fails, and the word admits once it succeeds. -/
theorem run_admits_soundly_of_opening :
    ∃ last : System, admits last.word = true ∧ last.core.session = .open ∧
      status last.word = last.core.flags := by
  have hlimit : 1 = (new ⟨1, 1⟩ 0).core.shared.tickets := by decide
  have hword : (0x10000 : Word) = ((new ⟨1, 1⟩ 0).serve (.arm 1)).word := by decide
  have hfailed : openingGuard.guess ≠ ((new ⟨1, 1⟩ 0).serve (.arm 1)).word := by decide
  have hrun : Run service.Step (new ⟨1, 1⟩ 0, [])
      [.began opening, .began (.arm 1), .served (.arm 1) 0, .failed opening openingGuard.guess,
        .served opening 0x10000]
      (((new ⟨1, 1⟩ 0).serve (.arm 1)).serve opening, []) := by
    refine .cons (.began ready_opening (forall_mem_nil _)) (.cons (.began hlimit ?_) (.cons
      (@Exchange.Service.Step.served _ _ _ _ _ _ [_] [] _ _ rfl) (.cons
      (@Exchange.Service.Step.failed _ _ _ _ _ _ [] [] _ _ hfailed) (.single
      (@Exchange.Service.Step.served _ _ _ _ _ _ [] [] _ _ hword)))))
    simp [service, Request.uses]
  have hadmits : admits (((new ⟨1, 1⟩ 0).serve (.arm 1)).serve opening).word = true := by
    decide
  have hsound := run_admits_soundly (.nil _) hrun
  exact ⟨_, hadmits, (hsound.2.2 hadmits).1.2.1, hsound.1⟩

end NexusOs.Ledger
