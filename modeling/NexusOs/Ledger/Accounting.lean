import NexusOs.Ledger.System

/-!
# The accounting of tickets

The counts of the word are those of the tickets handed out: `live` is the number of Armed and
Counted tickets together with the Counted tickets that were dropped, and `unapplied` is the number
of Counted tickets together with those dropped. Every request keeps this, no count step of a
published exchange is refused, and the handover fault is raised only where `Request.raises` says.
-/

namespace NexusOs.Ledger

open List System Request Handed

open Transition (Run)

variable {core : Core} {index : Nat}

theorem IsStatus.or {a b : Word} (ha : IsStatus a) (hb : IsStatus b) : IsStatus (a ||| b) := by
  unfold IsStatus at *
  rw [BitVec.and_comm, BitVec.and_or_distrib_left, BitVec.and_comm _ a, BitVec.and_comm _ b, ha, hb]

theorem isStatus_ite (set : Bool) (bit : Word) (h : IsStatus bit) :
    IsStatus (if set then bit else 0) := by
  cases set with
  | false => exact BitVec.zero_and
  | true => exact h

/-- The flags of a core are bits a store operation may publish. -/
theorem Core.isStatus_flags (core : Core) : IsStatus core.flags := by
  unfold Core.flags
  refine (((((IsStatus.or ?phase ?session).or (isStatus_ite _ LATCHED rfl)).or
    (isStatus_ite _ U_OCCUPIED rfl)).or (isStatus_ite _ C_OCCUPIED rfl)).or
    (isStatus_ite _ X_OCCUPIED rfl))
  case phase => cases core.phase <;> exact (rfl : _ = _)
  case session => cases core.session <;> exact (rfl : _ = _)

/-- Only an open, healthy and unlatched core with empty cells has the flags that admit. -/
theorem Core.flags_eq_open (h : core.flags = SESSION_OPEN) :
    core.phase = .healthy ∧ core.session = .open ∧ core.latch = none ∧ core.u = none ∧
      core.c = none ∧ core.x = none := by
  unfold Core.flags at h
  simp only [← Option.not_isSome_iff_eq_none]
  generalize core.phase = phase at *
  generalize core.session = session at *
  generalize core.latch.isSome = latch at *
  generalize core.u.isSome = u at *
  generalize core.c.isSome = c at *
  generalize core.x.isSome = x at *
  revert h
  cases phase <;> cases session <;> cases latch <;> cases u <;> cases c <;> cases x <;> decide

/-! ## What is counted -/

/-- A ticket in use that is Armed. -/
def Handed.isArmed : Handed → Bool
  | ⟨⟨_, .armed⟩, false⟩ => true
  | _ => false

/-- A ticket in use that is Counted. -/
def Handed.isCounted : Handed → Bool
  | ⟨⟨_, .counted _⟩, false⟩ => true
  | _ => false

/-- A Counted ticket that was dropped unconfirmed. -/
def Handed.isLost : Handed → Bool
  | ⟨⟨_, .counted _⟩, true⟩ => true
  | _ => false

namespace System

def armed (system : System) : Nat := system.tickets.countP isArmed

def counted (system : System) : Nat := system.tickets.countP isCounted

def lost (system : System) : Nat := system.tickets.countP isLost

/-- The word agrees with the core and with the tickets. -/
structure Accounted (system : System) : Prop where
  status : status system.word = system.core.flags
  limit : system.core.shared.tickets ≤ 0xFFFFFF
  live : live system.word = system.armed + system.counted + system.lost
  unapplied : unapplied system.word = system.counted + system.lost
  room : Ledger.live system.word ≤ system.core.shared.tickets

end System

/-- Whether a request raises the handover fault: `arm` at the limit, `expire` of a ticket that is
not Armed, or the drop of a Counted one. -/
def Request.raises : Request → Word → Bool
  | .arm limit, word => !armRoom limit word
  | .expire _ ticket, _ => decide (ticket.state ≠ .armed)
  | .drop _ ⟨_, .counted _⟩, _ => true
  | _, _ => false

/-- Replacing one ticket changes a count by what it was and what it is. -/
theorem countP_set_add {α : Type} (p : α → Bool) {tickets : List α} {old : α}
    (h : tickets[index]? = some old) (new : α) :
    (tickets.set index new).countP p + (p old).toNat = tickets.countP p + (p new).toNat := by
  obtain ⟨hlt, rfl⟩ := List.getElem?_eq_some_iff.mp h
  rw [countP_set hlt]
  cases hold : p tickets[index] with
  | false => cases p new <;> simp
  | true =>
    have hpos : 0 < tickets.countP p := countP_pos_iff.mpr ⟨_, getElem_mem hlt, hold⟩
    cases p new <;> simp only [Bool.toNat_true, Bool.toNat_false, if_true, Bool.false_eq_true,
      if_false] <;> omega

namespace System

variable {system : System} {request : Request} {shared : LedgerId} {ticket : Ticket} {label : Label}
  {guard : Publish} {lent : Option (Nat × Ticket)}

/-- What serving a request does, beyond keeping the accounts. -/
structure Served (system : System) (request : Request) : Prop where
  accounted : (system.serve request).Accounted
  refused : request.refused system.word = false
  fault : handoverFault (system.serve request).word =
    (handoverFault system.word || request.raises system.word)

section

variable (h : system.Accounted)

include h

/-- The accounts after a ticket was replaced and the word stepped. -/
theorem Accounted.set {word : Word} {old new : Handed}
    (hold : system.tickets[index]? = some old) (hshared : core.shared = system.core.shared)
    (hstatus : Ledger.status word = core.flags)
    (hlive : Ledger.live word + (old.isArmed.toNat + old.isCounted.toNat + old.isLost.toNat) =
      Ledger.live system.word + (new.isArmed.toNat + new.isCounted.toNat + new.isLost.toNat))
    (hunapplied : Ledger.unapplied word + (old.isCounted.toNat + old.isLost.toNat) =
      Ledger.unapplied system.word + (new.isCounted.toNat + new.isLost.toNat))
    (hroom : Ledger.live word ≤ Ledger.live system.word) :
    Accounted ⟨core, word, system.tickets.set index new⟩ := by
  have harmed := countP_set_add isArmed hold new
  have hcounted := countP_set_add isCounted hold new
  have hlost := countP_set_add isLost hold new
  have hlive₀ := h.live
  have hunapplied₀ := h.unapplied
  unfold armed counted lost at hlive₀
  unfold counted lost at hunapplied₀
  refine ⟨hstatus, hshared ▸ h.limit, ?_, ?_, hshared ▸ hroom.trans h.room⟩
  · simp only [armed, counted, lost]
    omega
  · simp only [counted, lost]
    omega

/-- An Armed ticket in use is live, and leaves room for one more result. -/
theorem Accounted.armed_pos (hticket : system.tickets[index]? = some ⟨⟨shared, .armed⟩, false⟩) :
    0 < Ledger.live system.word ∧ Ledger.unapplied system.word < 0xFFFFFF := by
  have hpos : 0 < system.armed := countP_pos_iff.mpr ⟨_, mem_of_getElem? hticket, rfl⟩
  have hlive := h.live
  have hunapplied := h.unapplied
  have hroom := h.room
  have hlimit := h.limit
  omega

/-- A Counted ticket in use is live and waits to be taken over. -/
theorem Accounted.counted_pos {counted : Counted}
    (hticket : system.tickets[index]? = some ⟨⟨shared, .counted counted⟩, false⟩) :
    0 < Ledger.live system.word ∧ 0 < Ledger.unapplied system.word := by
  have hpos : 0 < system.counted := countP_pos_iff.mpr ⟨_, mem_of_getElem? hticket, rfl⟩
  have hlive := h.live
  have hunapplied := h.unapplied
  omega

/-! ## Every request -/

/-- Raising the fault keeps the accounts. -/
theorem Accounted.fault : Accounted ⟨system.core, faultStep system.word, system.tickets⟩ := by
  refine ⟨(status_faultStep _).trans h.status, h.limit, ?_, ?_, ?_⟩
  · exact (live_faultStep _).trans h.live
  · exact (unapplied_faultStep _).trans h.unapplied
  · exact (live_faultStep _).trans_le h.room

theorem serve_arm : Served system (.arm system.core.shared.tickets) := by
  by_cases hroom : live system.word < system.core.shared.tickets
  · have harm : armRoom system.core.shared.tickets system.word = true := decide_eq_true hroom
    obtain ⟨hfault, hlive, hunapplied⟩ := armStep_room system.word h.limit hroom
    refine ⟨⟨(status_armStep _ _).trans h.status, h.limit, ?_, ?_, ?_⟩, rfl, ?_⟩
    · have hlive₀ := h.live
      simp only [serve, armed, counted, lost, ticketsAfter, harm,
        step] at hlive₀ ⊢
      simp [isArmed, isCounted, isLost]
      omega
    · have hunapplied₀ := h.unapplied
      simp only [serve, counted, lost, ticketsAfter, harm,
        step] at hunapplied₀ ⊢
      rw [hunapplied, hunapplied₀]
      simp [isCounted, isLost]
    · exact hlive.trans_le hroom
    · rw [raises, harm, Bool.not_true, Bool.or_false]
      exact hfault
  · have harm : armRoom system.core.shared.tickets system.word = false := decide_eq_false hroom
    have hstep := armStep_full system.word (Nat.not_lt.mp hroom)
    have hserve : system.serve (.arm system.core.shared.tickets) =
        ⟨system.core, faultStep system.word, system.tickets⟩ := by
      simp [serve, step, hstep, ticketsAfter, harm]
    refine ⟨by rw [hserve]; exact h.fault, rfl, ?_⟩
    rw [hserve]
    simp [raises, harm]

/-- An Armed ticket is confirmed or dropped. -/
theorem serve_disarm {request : Request}
    (hticket : system.tickets[index]? = some ⟨⟨shared, .armed⟩, false⟩)
    (hrequest : request = .confirm index ⟨shared, .armed⟩ ∨
      request = .drop index ⟨shared, .armed⟩) :
    Served system request := by
  have hpos := (h.armed_pos hticket).1
  obtain ⟨hnext, hfault, hlive, hunapplied⟩ := disarmStep_spec system.word hpos
  rcases hrequest with rfl | rfl
  all_goals
    refine ⟨h.set hticket rfl ((status_countStep _ (by decide) _).trans h.status) ?_ ?_ ?_, ?_, ?_⟩
    · simp only [step, isArmed, isCounted, isLost, Bool.toNat_true,
        Bool.toNat_false]
      omega
    · simp [step, hunapplied, isCounted, isLost]
    · simp only [step]
      omega
    · simpa [refused, countSteps] using hnext
    · simpa [raises, step] using hfault

theorem serve_confirm (hready : system.Ready (.confirm index ticket)) :
    Served system (.confirm index ticket) := by
  obtain ⟨shared, state⟩ := ticket
  obtain ⟨hticket, hsettled⟩ := hready
  have hstatus := h.status
  cases state with
  | armed => exact serve_disarm h hticket (.inl rfl)
  | counted counted =>
    obtain ⟨hpos, hpos'⟩ := h.counted_pos hticket
    obtain ⟨hnext, hnext', hfault, hlive, hunapplied⟩ := confirmStep_spec system.word hpos' hpos
    refine ⟨h.set hticket rfl (((status_countStep _ (by decide) _).trans
      (status_countStep _ (by decide) _)).trans hstatus) ?_ ?_ ?_, ?_, ?_⟩
    · simp only [step, isArmed, isCounted, isLost, Bool.toNat_true,
        Bool.toNat_false]
      omega
    · simp only [step, isCounted, isLost, Bool.toNat_true, Bool.toNat_false]
      omega
    · simp only [step]
      omega
    · simpa [refused, countSteps] using ⟨hnext, hnext'⟩
    · simpa [raises, step] using hfault
  | settled => exact absurd rfl hsettled

theorem serve_expire (hticket : system.Ready (.expire index ticket)) :
    Served system (.expire index ticket) := by
  obtain ⟨shared, state⟩ := ticket
  have hstatus := h.status
  cases state with
  | armed =>
    have hroom := (h.armed_pos hticket).2
    obtain ⟨hnext, hfault, hlive, hunapplied⟩ := expireStep_spec system.word hroom
    refine ⟨h.set hticket rfl ((status_countStep _ (by decide) _).trans hstatus) ?_ ?_ ?_, ?_, ?_⟩
    · simp [step, hlive, isArmed, isCounted, isLost]
    · simp [step, hunapplied, isCounted, isLost]
    · exact hlive.le
    · simpa [refused, countSteps] using hnext
    · simpa [raises, step] using hfault
  | counted counted | settled => exact ⟨h.fault, rfl, by simp [step, raises]⟩

theorem serve_drop (hready : system.Ready (.drop index ticket)) :
    Served system (.drop index ticket) := by
  obtain ⟨shared, state⟩ := ticket
  obtain ⟨hticket, hsettled⟩ := hready
  have hstatus := h.status
  cases state with
  | armed => exact serve_disarm h hticket (.inr rfl)
  | counted counted =>
    refine ⟨h.set hticket rfl ((status_faultStep _).trans hstatus) ?_ ?_ ?_, rfl, ?_⟩
    · simp [step, isArmed, isCounted, isLost]
    · simp [step, isCounted, isLost]
    · exact (live_faultStep _).le
    · simp [step, raises]
  | settled => exact absurd rfl hsettled

end

/-- A store operation that counts the ticket it was lent counts an Armed one, of its own
ledger. -/
theorem armed_of_counted (hready : system.Ready (.publish label guard lent))
    (hcounted : guard.counted.isSome) :
    ∃ index shared, lent = some (index, ⟨shared, .armed⟩) ∧
      system.tickets[index]? = some ⟨⟨shared, .armed⟩, false⟩ := by
  obtain ⟨hends, hlends⟩ := hready
  obtain ⟨ticket, batch, hcall, hfault⟩ := hends.lent hcounted
  obtain ⟨hshared, hstate⟩ := Publish.ticketFault_eq_none.mp hfault
  obtain ⟨shared, state⟩ := ticket
  obtain rfl : state = .armed := hstate
  rw [hcall] at hlends
  cases lent with
  | none => exact absurd hshared hlends
  | some lent =>
    obtain ⟨index, ticket⟩ := lent
    obtain ⟨rfl, hticket⟩ := hlends
    exact ⟨index, shared, rfl, hticket⟩

/-- A store operation that does not count its ticket leaves the tickets. -/
theorem ticketsAfter_uncounted (hready : system.Ready (.publish label guard lent))
    (hcounted : guard.counted = none) :
    system.ticketsAfter (.publish label guard lent) = system.tickets := by
  cases lent with
  | none => rfl
  | some lent =>
    obtain ⟨-, hlends⟩ := hready
    simp only [ticketsAfter, Publish.ticketAfter, hcounted]
    unfold Lends at hlends
    split at hlends
    · rename_i heq
      cases heq
      obtain ⟨rfl, hticket⟩ := hlends
      obtain ⟨hlt, hget⟩ := List.getElem?_eq_some_iff.mp hticket
      rw [← hget, set_getElem_self]
    · rename_i heq
      cases heq
    · cases hlends

theorem serve_publish (h : system.Accounted) (hready : system.Ready (.publish label guard lent)) :
    Served system (.publish label guard lent) := by
  have hshared : guard.core.shared = system.core.shared := shared_serve hready
  obtain ⟨hstatus, hfault, hlive, hunapplied⟩ :=
    publishStep_plain system.word guard.core.isStatus_flags
  cases hcounted : guard.counted with
  | none =>
    have hstep : guard.publication = publishStep guard.core.flags false := by
      simp [Publish.publication, hcounted]
    have htickets := ticketsAfter_uncounted hready hcounted
    have hserve : system.serve (.publish label guard lent) =
        ⟨guard.core, publishStep guard.core.flags false system.word, system.tickets⟩ := by
      simp [serve, step, hstep, htickets]
    refine ⟨?_, by simp [refused, countSteps, hcounted], ?_⟩
    · rw [hserve]
      refine ⟨hstatus, hshared ▸ h.limit, hlive.trans h.live, hunapplied.trans h.unapplied, ?_⟩
      exact hlive.trans_le (hshared ▸ h.room)
    · simpa [step, hstep, raises] using hfault
  | some counted =>
    obtain ⟨index, shared, rfl, hticket⟩ := armed_of_counted hready (by simp [hcounted])
    have hroom := (h.armed_pos hticket).2
    rw [← hunapplied] at hroom
    obtain ⟨hnext, hfault', hlive', hunapplied'⟩ := expireStep_spec _ hroom
    have hstep : guard.publication system.word =
        expireStep (publishStep guard.core.flags false system.word) := by
      simp [Publish.publication, hcounted, publishStep_counted]
    have hserve : system.serve (.publish label guard (some (index, ⟨shared, .armed⟩))) =
        ⟨guard.core, expireStep (publishStep guard.core.flags false system.word),
          system.tickets.set index ⟨⟨shared, .counted counted⟩, false⟩⟩ := by
      simp [serve, step, hstep, ticketsAfter, Publish.ticketAfter, hcounted]
    refine ⟨?_, by simpa [refused, countSteps, hcounted] using hnext, ?_⟩
    · rw [hserve]
      refine h.set hticket hshared ((status_countStep _ (by decide) _).trans hstatus) ?_ ?_ ?_
      · simp [hlive', hlive, isArmed, isCounted, isLost]
      · simp [hunapplied', hunapplied, isCounted, isLost]
      · exact (hlive'.trans hlive).le
    · simpa [step, hstep, raises] using hfault'.trans hfault

/-- Serving a request keeps the accounts. -/
theorem Accounted.served (h : system.Accounted) (hready : system.Ready request) :
    Served system request := by
  cases request with
  | arm limit =>
    obtain rfl : limit = _ := hready
    exact serve_arm h
  | confirm => exact serve_confirm h hready
  | expire => exact serve_expire h hready
  | drop => exact serve_drop h hready
  | publish => exact serve_publish h hready

theorem accounted_new (limits : Limits) (address : LedgerId) :
    (new limits address).Accounted where
  status := by
    have hword : Ledger.status 0 = 0 := by decide
    simpa [new, Core.new, Core.flags] using hword
  limit := by
    have hmax : TICKET_LIMIT_MAX = 0xFFFFFF := rfl
    simp only [new, Core.new]
    omega
  live := (by decide : Ledger.live 0 = 0)
  unapplied := (by decide : Ledger.unapplied 0 = 0)
  room := (by decide : Ledger.live 0 = 0).trans_le (Nat.zero_le _)

theorem Accounted.atomic {next : System} (h : system.Accounted)
    (hstep : service.Atomic system request next) : next.Accounted := by
  obtain ⟨hready, rfl⟩ := hstep
  exact (h.served hready).accounted

end System

/-! ## Runs -/

section Runs

open Exchange (Attempt Flight)

variable {limits : Limits} {address : LedgerId} {attempts : List (Attempt Request Word)}
  {state next : System × List (Flight Request Word)}

/-- Whether an attempt raised the handover fault. -/
def raisesFault : Attempt Request Word → Bool
  | .served request present => request.raises present
  | .began _ | .failed _ _ => false

/-- The handover fault is set exactly where a served request raised it. -/
theorem handoverFault_run (h : Run service.Step state attempts next)
    (hfly : service.Flying state.1 (state.2.map Flight.request))
    (hstate : state.1.Accounted) :
    handoverFault next.1.word = (handoverFault state.1.word || attempts.any raisesFault) := by
  induction h with
  | nil => simp
  | cons hstep _ ih =>
    have hfly' := hstep.flying hfly
    cases hstep with
    | began | failed => simpa [raisesFault] using ih hfly' hstate
    | @served s before after request present hpresent =>
      have hready : s.Ready request := hfly.ready request (by simp)
      have hserved := hstate.served hready
      have hfault := hserved.fault
      rw [ih hfly' hserved.accounted, hpresent]
      simp only [service, any_cons, raisesFault, hfault, Bool.or_assoc]

/-- The accounting of tickets, over every run of a ledger's loops. The counts of the word are
those of the tickets, within the limit; no exchange that succeeds was computed by a refused
count step; and the handover fault is set exactly where `arm` was served at the limit, `expire` on
a ticket that is not Armed, or the drop of a Counted ticket. -/
theorem run_accounts_tickets
    (h : Run service.Step (new limits address, []) attempts next) :
    live next.1.word = next.1.armed + next.1.counted + next.1.lost ∧
      unapplied next.1.word = next.1.counted + next.1.lost ∧
      unapplied next.1.word ≤ live next.1.word ∧
      live next.1.word ≤ max 1 (min limits.tickets TICKET_LIMIT_MAX) ∧
      (∀ request present, .served request present ∈ attempts → request.refused present = false) ∧
      (handoverFault next.1.word = true ↔ ∃ request present,
        .served request present ∈ attempts ∧ request.raises present = true) := by
  have hfly := Exchange.flying_nil service (new limits address)
  have hnew := accounted_new limits address
  have hkeep : ∀ {s request t}, s.Accounted ∧ s.core.shared = (Core.new limits address).shared →
      service.Atomic s request t →
      t.Accounted ∧ t.core.shared = (Core.new limits address).shared := by
    rintro s request t ⟨haccounted, hshared⟩ ⟨hready, rfl⟩
    exact ⟨(haccounted.served hready).accounted, (shared_serve hready).trans hshared⟩
  obtain ⟨haccounted, hshared⟩ := (Exchange.run_atomic h hfly).invariant hkeep ⟨hnew, rfl⟩
  refine ⟨haccounted.live, haccounted.unapplied, ?_, ?_, fun request present hmem => ?_, ?_⟩
  · rw [haccounted.live, haccounted.unapplied]
    omega
  · have hroom := haccounted.room
    rw [hshared] at hroom
    exact hroom
  · obtain ⟨s, ⟨hs, -⟩, hready, rfl⟩ := Exchange.served_at h hfly hkeep ⟨hnew, rfl⟩ hmem
    exact (hs.served hready).refused
  rw [handoverFault_run h hfly hnew]
  have hzero : handoverFault (new limits address).word = false :=
    (by decide : handoverFault 0 = false)
  rw [hzero, Bool.false_or, any_eq_true]
  constructor
  · rintro ⟨attempt, hmem, hraises⟩
    cases attempt with
    | served request present => exact ⟨request, present, hmem, hraises⟩
    | began | failed => cases hraises
  · rintro ⟨request, present, hmem, hraises⟩
    exact ⟨_, hmem, hraises⟩

/-- One ticket is armed and confirmed. The loop of the confirmation starts from the guess 0, and
its first exchange fails. -/
def confirmAttempts : List (Attempt Request Word) :=
  [.began (.arm 1), .served (.arm 1) 0, .began (.confirm 0 ⟨0, .armed⟩),
    .failed (.confirm 0 ⟨0, .armed⟩) 0, .served (.confirm 0 ⟨0, .armed⟩) 0x10000]

theorem confirmAttempts_run :
    Run service.Step (new ⟨1, 1⟩ 0, []) confirmAttempts
      (((new ⟨1, 1⟩ 0).serve (.arm 1)).serve (.confirm 0 ⟨0, .armed⟩), []) := by
  have harmed : (0x10000 : Word) = ((new ⟨1, 1⟩ 0).serve (.arm 1)).word := by decide
  have hlimit : 1 = (new ⟨1, 1⟩ 0).core.shared.tickets := by decide
  refine .cons (.began hlimit (forall_mem_nil _))
    (.cons (@Exchange.Service.Step.served _ _ _ _ _ _ [] [] _ _ rfl)
    (.cons (.began ⟨?_, by simp⟩ (forall_mem_nil _)) (.cons
      (@Exchange.Service.Step.failed _ _ _ _ _ _ [] [] _ _ ?_)
      (.single (@Exchange.Service.Step.served _ _ _ _ _ _ [] [] _ _ harmed)))))
  · show ((new ⟨1, 1⟩ 0).serve (.arm 1)).tickets[0]? = _
    rfl
  · show (0 : Word) ≠ ((new ⟨1, 1⟩ 0).serve (.arm 1)).word
    decide

/-- The run ends with every count at zero and no fault. -/
theorem run_accounts_tickets_of_confirm :
    live (((new ⟨1, 1⟩ 0).serve (.arm 1)).serve (.confirm 0 ⟨0, .armed⟩)).word ≤ 1 ∧
      ∀ request present, .served request present ∈ confirmAttempts →
        request.refused present = false :=
  have h := run_accounts_tickets confirmAttempts_run
  ⟨h.2.2.2.1, h.2.2.2.2.1⟩

/-- An exchange that fails may have been computed by a refused count step: the first attempt of a
confirmation steps the guess 0 down. -/
theorem not_every_attempt_accepts :
    ¬ ∀ attempts next, Run service.Step (new ⟨1, 1⟩ 0, []) attempts next →
      ∀ request present, .served request present ∈ attempts ∨ .failed request present ∈ attempts →
        request.refused present = false := by
  intro h
  have hfailed := h _ _ confirmAttempts_run (.confirm 0 ⟨0, .armed⟩) 0
    (.inr (by simp [confirmAttempts]))
  revert hfailed
  decide

end Runs

end NexusOs.Ledger
