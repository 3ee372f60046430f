import NexusOs.Lib.Exchange
import NexusOs.Ledger.Simulation

/-!
# A ledger and its tickets

The core, the word it shares with the tickets, and the tickets themselves. Store operations are
made one at a time; each publishes by one exchange on the word, at its end. Arming, confirming,
expiring and dropping tickets are exchanges of other threads, at any time. A run of the system is a
run of these loops, exchange by exchange.

The body of a store operation does not touch the word, so it is run when the operation's own
loop begins.
-/

namespace NexusOs.Ledger

open Transition (Run)
open Exchange (Service)

/-- A ticket that was handed out, and whether its owner dropped or confirmed it. -/
structure Handed where
  ticket : Ticket
  gone : Bool
  deriving DecidableEq

structure System where
  /-- The core as of the last completed store operation. -/
  core : Core
  word : Word
  /-- The tickets `arm` handed out, in order. -/
  tickets : List Handed

/-- `Core::new`. -/
def System.new (limits : Limits) (address : LedgerId) : System := ⟨Core.new limits address, 0, []⟩

/-- What a loop on the word serves, with what its closure captured. -/
inductive Request where
  | arm (limit : Nat)
  | confirm (index : Nat) (ticket : Ticket)
  | expire (index : Nat) (ticket : Ticket)
  | drop (index : Nat) (ticket : Ticket)
  /-- The end of a store operation, with the ticket it was lent. -/
  | publish (label : Label) (guard : Publish) (lent : Option (Nat × Ticket))

namespace Request

/-- The guess the loop starts from. -/
def guess : Request → Word
  | .publish _ guard _ => guard.guess
  | _ => 0

/-- The closure of the loop. A Settled ticket is confirmed and dropped without an exchange. -/
def step : Request → Word → Word
  | .arm limit => armStep limit
  | .confirm _ ⟨_, .armed⟩ | .drop _ ⟨_, .armed⟩ => disarmStep
  | .confirm _ ⟨_, .counted _⟩ => confirmStep
  | .expire _ ⟨_, .armed⟩ => expireStep
  | .expire _ _ | .drop _ ⟨_, .counted _⟩ => faultStep
  | .confirm _ ⟨_, .settled⟩ | .drop _ ⟨_, .settled⟩ => id
  | .publish _ guard _ => guard.publication

/-- The arguments of the calls of `count_step` the closure makes for a present value. -/
def countSteps : Request → Word → List (Word × Nat × Bool)
  | .confirm _ ⟨_, .armed⟩, word | .drop _ ⟨_, .armed⟩, word => [(word, LIVE_SHIFT, false)]
  | .confirm _ ⟨_, .counted _⟩, word =>
    [(word, UNAPPLIED_SHIFT, false), (countStep word UNAPPLIED_SHIFT false, LIVE_SHIFT, false)]
  | .expire _ ⟨_, .armed⟩, word => [(word, UNAPPLIED_SHIFT, true)]
  | .publish _ guard _, word =>
    if guard.counted.isSome then
      [(publishStep guard.core.flags false word, UNAPPLIED_SHIFT, true)]
    else []
  | _, _ => []

/-- Whether a call of `count_step` the closure makes takes the branch that refuses. -/
def refused (request : Request) (word : Word) : Bool :=
  (request.countSteps word).any fun (word, shift, up) => (countNext word shift up).isNone

/-- The things the request uses until it is served: the store, or a ticket. -/
def uses : Request → List (Option Nat)
  | .arm _ => []
  | .confirm index _ | .expire index _ | .drop index _ => [some index]
  | .publish _ _ lent => none :: (lent.map fun (index, _) => some index).toList

end Request

namespace System

/-- What a store operation is lent: a ticket of this ledger, or of another. -/
def Lends (system : System) : Call → Option (Nat × Ticket) → Prop
  | .appendFacts ticket _, some (index, lent) =>
    lent = ticket ∧ system.tickets[index]? = some ⟨ticket, false⟩
  | .appendFacts ticket _, none => ticket.shared ≠ system.core.shared.address
  | _, lent => lent = none

/-- When a request can be made. -/
def Ready (system : System) : Request → Prop
  | .arm limit => limit = system.core.shared.tickets
  | .confirm index ticket | .drop index ticket =>
    system.tickets[index]? = some ⟨ticket, false⟩ ∧ ticket.state ≠ .settled
  | .expire index ticket => system.tickets[index]? = some ⟨ticket, false⟩
  | .publish label guard lent =>
    label.Ends Store.AnyStorage system.core () guard () ∧ system.Lends label.call lent

/-- The tickets once a request is served. -/
def ticketsAfter (system : System) : Request → List Handed
  | .arm limit =>
    if armRoom limit system.word then
      system.tickets ++ [⟨⟨system.core.shared.address, .armed⟩, false⟩]
    else system.tickets
  | .confirm index ticket => system.tickets.set index ⟨{ ticket with state := .settled }, true⟩
  | .expire index ticket =>
    if ticket.state = .armed then
      system.tickets.set index ⟨{ ticket with state := .counted ⟨.notWritten, none⟩ }, false⟩
    else system.tickets
  | .drop index ticket => system.tickets.set index ⟨ticket, true⟩
  | .publish _ guard (some (index, ticket)) =>
    system.tickets.set index ⟨guard.ticketAfter ticket, false⟩
  | .publish _ _ none => system.tickets

/-- The system once a request is served. -/
def serve (system : System) (request : Request) : System where
  core := match request with
    | .publish _ guard _ => guard.core
    | _ => system.core
  word := request.step system.word
  tickets := system.ticketsAfter request

variable {system : System} {request other : Request}

@[simp] theorem serve_word : (system.serve request).word = request.step system.word := rfl

/-- A request leaves every ticket it does not use. -/
theorem getElem?_ticketsAfter {index : Nat} {handed : Handed} (huses : some index ∉ request.uses)
    (h : system.tickets[index]? = some handed) :
    (system.ticketsAfter request)[index]? = some handed := by
  have hset : ∀ {i : Nat} (new : Handed), i ≠ index →
      (system.tickets.set i new)[index]? = some handed := by
    intro i new hne
    rw [List.getElem?_set_ne hne, h]
  cases request with
  | arm limit =>
    simp only [ticketsAfter]
    split
    · rw [List.getElem?_append_left (List.getElem?_eq_some_iff.mp h).1, h]
    · exact h
  | confirm i ticket | drop i ticket => exact hset _ (by rintro rfl; simp [Request.uses] at huses)
  | expire i ticket =>
    simp only [ticketsAfter]
    split
    · exact hset _ (by rintro rfl; simp [Request.uses] at huses)
    · exact h
  | publish label guard lent =>
    cases lent with
    | none => exact h
    | some lent => exact hset _ (by rintro rfl; simp [Request.uses] at huses)

/-- Only the end of a store operation changes the core. -/
theorem core_serve (h : none ∉ request.uses) : (system.serve request).core = system.core := by
  cases request with
  | publish => simp [Request.uses] at h
  | arm | confirm | expire | drop => rfl

/-- No request changes which ledger this is. -/
theorem shared_serve (h : system.Ready request) :
    (system.serve request).core.shared = system.core.shared := by
  cases request with
  | publish label guard lent => exact Store.Step.shared ⟨guard, h.1, rfl⟩
  | arm | confirm | expire | drop => rfl

/-- A request that is ready stays ready while others are served that use other things. -/
theorem ready_serve (hrequest : system.Ready request) (hother : system.Ready other)
    (huses : request.uses.Disjoint other.uses) : (system.serve request).Ready other := by
  cases other with
  | arm limit => exact .trans hother (by rw [shared_serve hrequest])
  | confirm i ticket | drop i ticket =>
    exact ⟨getElem?_ticketsAfter (fun hmem => huses hmem (by simp [Request.uses])) hother.1,
      hother.2⟩
  | expire i ticket =>
    exact getElem?_ticketsAfter (fun hmem => huses hmem (by simp [Request.uses])) hother
  | publish label guard lent =>
    have hcore : (system.serve request).core = system.core :=
      core_serve fun hmem => huses hmem (by simp [Request.uses])
    obtain ⟨hends, hlends⟩ := hother
    refine ⟨by rw [hcore]; exact hends, ?_⟩
    unfold Lends at hlends ⊢
    split at hlends
    · exact ⟨hlends.1, getElem?_ticketsAfter
        (fun hmem => huses hmem (by simp [Request.uses])) hlends.2⟩
    · rw [hcore]
      exact hlends
    · exact hlends

/-- The exchanges on a ledger's word. -/
def service : Service System Request Word (Option Nat) where
  word := System.word
  guess := Request.guess
  step := Request.step
  serve := serve
  word_serve _ _ := rfl
  ready := Ready
  uses := Request.uses
  ready_serve := ready_serve

variable {after : System}

/-- A request leaves the core, or ends a store operation. -/
theorem core_atomic (h : System.service.Atomic system request after) :
    after.core = system.core ∨ ∃ label guard lent, request = .publish label guard lent ∧
      Store.Step system.core label after.core := by
  obtain ⟨hready, rfl⟩ := h
  cases request with
  | publish label guard lent => exact .inr ⟨label, guard, lent, rfl, guard, hready.1, rfl⟩
  | arm | confirm | expire | drop => exact .inl rfl

/-- What every move preserves, every run of requests preserves. -/
theorem core_invariant (inv : Core → Prop)
    (hmove : ∀ {s m t}, inv s.1 → Move.Step Books.any s m t → inv t.1) {requests : List Request}
    (h : Run System.service.Atomic system requests after) (hcore : inv system.core) :
    inv after.core := by
  induction h with
  | nil => exact hcore
  | cons hstep _ ih =>
    refine ih ?_
    obtain hsame | ⟨label, guard, lent, -, hstep⟩ := core_atomic hstep
    · rwa [hsame]
    · exact hstep.invariant inv hmove hcore

/-- The operation a request ends. -/
theorem step_of_publish {label : Label} {guard : Publish} {lent : Option (Nat × Ticket)}
    (h : System.service.Atomic system (.publish label guard lent) after) :
    Store.Step system.core label after.core := by
  obtain ⟨hready, rfl⟩ := h
  exact ⟨guard, hready.1, rfl⟩

/-- A request that is served while no other is in flight, at its first exchange. -/
theorem run_alone (hready : system.Ready request) (hguess : request.guess = system.word) :
    Run System.service.Step (system, []) [.began request, .served request request.guess]
      (system.serve request, []) :=
  .cons (.began hready (List.forall_mem_nil _))
    (.single (@Exchange.Service.Step.served _ _ _ _ _ _ [] [] _ _ hguess))

end System

end NexusOs.Ledger
