import NexusOs.Evidence.Record
import NexusOs.HostSession.Word
import NexusOs.Lib.Threads

/-!
# The memory of a host session

What the threads of one host session share (`Core` of `host_session.rs`, `Producers` and `Finals` of
`host_session/close.rs`, `Stops` of `host_session/stop.rs`), and the atomic actions on it. Clocks,
native calls and the reports of other components are actions that may answer anything. Identities of
the one session are left out.
-/

namespace NexusOs.HostSession

open Utf8 Evidence

/-- `ScopeKind`. -/
inductive ScopeKind where
  | bootstrap
  | work
  | restoration
  | closeCleanup
  deriving DecidableEq

/-- `RequestScope`: its deadlines are asked for, and its steps are counted in `Core`. -/
structure RequestScope where
  request : Nat
  snapshot : Word
  kind : ScopeKind
  deriving DecidableEq

/-- `CommandKind`. -/
inductive CommandKind where
  | run
  | approve
  | undo
  | cleanup
  | detail
  | status
  | evidence
  | quit
  | lift
  deriving DecidableEq

/-- `SessionError`. -/
inductive SessionError where
  | unavailable
  | restricted
  | sessionEnded
  | noTarget
  | sequence
  | exhausted
  | backend (why : Text)
  deriving DecidableEq

/-- `CloseIdentity`. -/
structure CloseIdentity where
  sequence : Nat
  generation : Nat
  deriving DecidableEq

/-- `SessionRequest`: its scope by its number. -/
structure SessionRequest where
  kind : CommandKind
  sequence : Nat
  snapshot : Word
  target : Nat
  close : Option Nat
  scope : Nat
  deriving DecidableEq

/-- `ProducerKind`. -/
inductive ProducerKind where
  | input
  | startup
  | work
  | stopWorker
  | reporter
  | observation
  | output
  deriving DecidableEq

/-- `ProducerSlot`. -/
structure ProducerSlot where
  generation : Nat := 0
  live : Bool := false
  lost : Bool := false
  deriving DecidableEq

/-- `Producers`. -/
structure Producers where
  next : Nat := 0
  slots : List ProducerSlot := List.replicate 9 {}
  deriving DecidableEq

/-- A `Producer` handle: the place and the generation of its slot. -/
structure Producer where
  index : Nat
  generation : Nat
  deriving DecidableEq

/-- `IngressEvent`. -/
structure IngressEvent where
  generation : Nat
  index : Nat
  deriving DecidableEq

/-- The phases of a stop's slot. -/
inductive Phase where
  | empty
  | pending
  | inFlight
  | finished
  | uncertain
  | failedWorker
  deriving DecidableEq

/-- What `stop_session_event` reports. -/
structure NativeStop where
  ownershipEstablished : Bool
  record : EndStatus
  owed : Nat
  uncertain : Nat
  deriving DecidableEq

/-- `StopReceipt`. -/
structure StopReceipt where
  event : IngressEvent
  kernelStopped : Bool
  brokerStopped : Bool
  native : NativeStop
  deriving DecidableEq

/-- The record was written. -/
def wasRecorded : EndStatus → Bool
  | .recorded _ => true
  | _ => false

/-- `StopReceipt::recorded`. -/
def StopReceipt.recorded (r : StopReceipt) : Bool :=
  r.native.ownershipEstablished && r.kernelStopped && r.brokerStopped &&
    wasRecorded r.native.record && r.native.owed == 0 && r.native.uncertain == 0

/-- A slot of `Stops`. -/
structure StopSlot where
  generation : Nat := 0
  phase : Phase := .empty
  receipt : Option StopReceipt := none
  deriving DecidableEq

/-- The number of slots. -/
def capacity : Nat := 256

/-- `Stops`: the slots in use are those below `next`, at most the capacity. -/
structure Stops where
  slots : Nat → StopSlot := fun _ => {}
  next : Nat := 0
  active : Nat := 0
  overflowed : Bool := false

/-- The stops with a slot changed. -/
def Stops.modify (s : Stops) (index : Nat) (change : StopSlot → StopSlot) : Stops :=
  { s with slots := fun i => if i = index then change (s.slots i) else s.slots i }

/-- `FinalStatus`. -/
inductive FinalStatus where
  | pending
  | unknown
  | recorded
  | failed
  deriving DecidableEq

/-- The three final obligations. -/
inductive FinalField where
  | mother
  | primary
  | delivery
  deriving DecidableEq

/-- `Finals`. -/
structure Finals where
  status : FinalField → FinalStatus := fun _ => .pending
  history : Nat × Text := (0, [])

/-- The obligations with one of them changed. -/
def Finals.store (f : Finals) (field : FinalField) (status : FinalStatus) : Finals :=
  { f with status := fun g => if g = field then status else f.status g }

/-- The obligations after an exchange of one of them. -/
def Finals.exchange (f : Finals) (field : FinalField) (old new : FinalStatus) : Finals :=
  if f.status field = old then f.store field new else f

/-- `Core`, and what its callers own: producers that are not joined, requests, and the seal. -/
structure Core where
  word : Word := 0
  sequence : Nat := 0
  close : Option CloseIdentity := none
  /-- The scopes of requests, with the steps that they took. -/
  scopes : List (RequestScope × Nat) := [({ request := 0, snapshot := 0, kind := .bootstrap }, 0)]
  producers : Producers := {}
  /-- The call that holds the lock of the producers. -/
  holder : Option Nat := none
  poisoned : Bool := false
  stops : Stops := {}
  authorityClosed : Bool := false
  finals : Option Finals := none
  handles : List Producer := []
  requests : List SessionRequest := []
  closeSeal : Bool := false

/-- What an exchange of the session word is for. -/
inductive Change where
  | emergency
  | fail
  | close
  | latch (tag : HaltTag) (emergency : Bool)
  | ready
  | admission (scope : Nat) (facts : RequestScope)
  | register
  | sealing
  | finish (success : Bool)
  deriving DecidableEq

/-- What clocks and other components are asked. -/
inductive Question where
  /-- The core is gone, or a deadline of the request or its mission has passed. -/
  | scopeOver (scope : Nat)
  | coreThere
  | deadlinePassed
  | startupReady
  | bootstrapDone
  | modelReady
  | modelQuiescent
  deriving DecidableEq

/-- A native call, or a report of another component: it may refuse, or unwind. -/
inductive Reply (α : Type) where
  | gives (value : α)
  | refuses
  | panics

/-- The resources that are not discharged, and the uncertain ones. -/
structure ResourceDebt where
  unresolved : Nat
  uncertain : Nat

/-- An entry of the File inventory. -/
structure InventoryEntry where
  discharged : Bool
  inFlight : Bool
  uncertain : Bool

/-- `HaltRecords`. -/
structure HaltRecords where
  pending : Nat
  owed : Nat
  uncertain : Nat
  lost : Nat

/-- `EvidenceHealth`. -/
structure EvidenceHealth where
  latched : Bool
  owed : Nat
  recoveryRequired : Bool
  unsettled : Nat
  uncleanSessions : Nat

/-- What `recovery::history` reports of the Mother's journal. -/
structure HistoryReport where
  records : Nat
  unresolvedMissions : Nat
  sessionEndRecorded : Bool

/-- The atomic actions. -/
inductive Action where
  | load
  | exchange (why : Change) (old new : Word)
  /-- A loop that goes on for more rounds than are looked at. -/
  | spin
  | ask (question : Question)
  | takeSequence (sequence : Nat)
  | loadSequence
  | initClose (identity : CloseIdentity)
  | getClose
  | loadTarget (kind : CommandKind)
  | newScope (scope : RequestScope)
  | takeStep (scope : Nat)
  | lock
  | tryLock
  | unlock
  /-- Unwinding drops the guard of the lock and poisons it. -/
  | poison
  | readProducers
  | writeProducers (producers : Producers)
  | takeStop
  | overflow
  | loadOverflowed
  | loadNext
  | storeGeneration (index generation : Nat)
  | loadGeneration (index : Nat)
  | storePhase (index : Nat) (phase : Phase)
  | loadPhase (index : Nat)
  | exchangePhase (index : Nat) (old new : Phase)
  | setReceipt (index : Nat) (receipt : StopReceipt)
  | getReceipt (index : Nat)
  | takeWorker
  | dropWorker
  | loadActive
  | nativeStop
  | stopSnapshot
  | closeAuthority
  | storeAuthorityClosed
  | loadAuthorityClosed
  | resources
  | inventory
  | actions
  | haltRecords
  | health
  | history
  | historyLines
  | initFinals
  | setHistory (records : Nat) (head : Text)
  | getHistory
  | loadFinal (field : FinalField)
  | storeFinal (field : FinalField) (status : FinalStatus)
  | exchangeFinal (field : FinalField) (old new : FinalStatus)
  | verifyEnd (records : Nat) (head : Text)
  | closeSession
  deriving DecidableEq

/-- The answer to an action. -/
abbrev Answer : Action → Type
  | .load => Word
  | .exchange .. => Except Word Unit
  | .spin => Empty
  | .ask _ => Bool
  | .takeSequence _ => Bool
  | .loadSequence => Nat
  | .initClose _ => CloseIdentity
  | .getClose => Option CloseIdentity
  | .loadTarget _ => Nat
  | .newScope _ => Nat
  | .takeStep _ => Bool
  | .lock => Bool
  | .tryLock => Bool
  | .unlock => Unit
  | .poison => Unit
  | .readProducers => Producers
  | .writeProducers _ => Unit
  | .takeStop => Option Nat
  | .overflow => Unit
  | .loadOverflowed => Bool
  | .loadNext => Nat
  | .storeGeneration .. => Unit
  | .loadGeneration _ => Nat
  | .storePhase .. => Unit
  | .loadPhase _ => Phase
  | .exchangePhase .. => Bool
  | .setReceipt .. => Bool
  | .getReceipt _ => Option StopReceipt
  | .takeWorker => Bool
  | .dropWorker => Unit
  | .loadActive => Nat
  | .nativeStop => Reply NativeStop
  | .stopSnapshot => Bool × Bool
  | .closeAuthority => Reply Unit
  | .storeAuthorityClosed => Unit
  | .loadAuthorityClosed => Bool
  | .resources => Reply ResourceDebt
  | .inventory => Reply (List InventoryEntry)
  | .actions => Reply (List Bool)
  | .haltRecords => Reply HaltRecords
  | .health => Reply EvidenceHealth
  | .history => Reply HistoryReport
  | .historyLines => Reply (List Text)
  | .initFinals => Unit
  | .setHistory .. => Bool
  | .getHistory => Option (Nat × Text)
  | .loadFinal _ => Option FinalStatus
  | .storeFinal .. => Unit
  | .exchangeFinal .. => Option Bool
  | .verifyEnd .. => Bool
  | .closeSession => EndStatus

/-- When an action of call `t` may have an answer. -/
def allows (t : Nat) (s : Core) : (a : Action) → Answer a → Prop
  | .load, word => word = s.word
  | .exchange _ old _, .ok () => s.word = old
  -- A weak exchange may fail for no reason.
  | .exchange .., .error word => word = s.word
  | .takeSequence sequence, taken => taken = decide (s.sequence < sequence)
  | .loadSequence, sequence => sequence = s.sequence
  | .initClose identity, found => found = s.close.getD identity
  | .getClose, close => close = s.close
  | .newScope _, number => number = s.scopes.length
  | .takeStep number, taken =>
    ∃ scope steps, s.scopes[number]? = some (scope, steps) ∧ taken = decide (steps + 1 < 2 ^ 64)
  | .lock, ok => s.holder = none ∧ ok = !s.poisoned
  | .tryLock, ok => ok = decide (s.holder = none ∧ s.poisoned = false)
  | .unlock, () => s.holder = some t
  | .poison, () => s.holder = some t
  | .readProducers, producers => s.holder = some t ∧ producers = s.producers
  | .writeProducers _, () => s.holder = some t
  | .takeStop, index => index = if s.stops.next < capacity then some s.stops.next else none
  | .loadOverflowed, overflowed => overflowed = s.stops.overflowed
  | .loadNext, next => next = s.stops.next
  | .loadGeneration index, generation => generation = (s.stops.slots index).generation
  | .loadPhase index, phase => phase = (s.stops.slots index).phase
  | .exchangePhase index old _, ok => ok = decide ((s.stops.slots index).phase = old)
  | .setReceipt index _, ok => ok = (s.stops.slots index).receipt.isNone
  | .getReceipt index, receipt => receipt = (s.stops.slots index).receipt
  | .takeWorker, taken => taken = decide (s.stops.active < 4)
  | .loadActive, active => active = s.stops.active
  | .loadAuthorityClosed, closed => closed = s.authorityClosed
  -- The lock of the history may be poisoned.
  | .getHistory, some history => s.finals.map Finals.history = some history
  | .loadFinal field, status => status = s.finals.map (·.status field)
  | .exchangeFinal field old _, ok => ok = s.finals.map fun f => decide (f.status field = old)
  -- Whatever is asked of clocks and other components may be answered in any way.
  | _, _ => True

/-- What an action of call `t` makes of the memory. -/
def effect (t : Nat) (s : Core) : (a : Action) → Answer a → Core
  | .exchange _ _ new, .ok () => { s with word := new }
  | .takeSequence sequence, true => { s with sequence }
  | .initClose _, found => { s with close := some found }
  | .newScope scope, _ => { s with scopes := s.scopes ++ [(scope, 0)] }
  | .takeStep number, true =>
    { s with scopes := s.scopes.modify number fun (scope, steps) => (scope, steps + 1) }
  | .lock, true => { s with holder := some t }
  | .tryLock, true => { s with holder := some t }
  | .unlock, () => { s with holder := none }
  | .poison, () => { s with holder := none, poisoned := true }
  | .writeProducers producers, () => { s with producers }
  | .takeStop, some _ => { s with stops := { s.stops with next := s.stops.next + 1 } }
  | .overflow, () => { s with stops := { s.stops with overflowed := true } }
  | .storeGeneration index generation, () =>
    { s with stops := s.stops.modify index ({ · with generation }) }
  | .storePhase index phase, () => { s with stops := s.stops.modify index ({ · with phase }) }
  | .exchangePhase index _ new, true =>
    { s with stops := s.stops.modify index ({ · with phase := new }) }
  | .setReceipt index receipt, true =>
    { s with stops := s.stops.modify index ({ · with receipt := some receipt }) }
  | .takeWorker, true => { s with stops := { s.stops with active := s.stops.active + 1 } }
  | .dropWorker, () => { s with stops := { s.stops with active := s.stops.active - 1 } }
  | .storeAuthorityClosed, () => { s with authorityClosed := true }
  | .initFinals, () => { s with finals := some (s.finals.getD {}) }
  | .setHistory records head, true =>
    { s with finals := s.finals.map ({ · with history := (records, head) }) }
  | .storeFinal field status, () => { s with finals := s.finals.map (·.store field status) }
  | .exchangeFinal field old new, _ => { s with finals := s.finals.map (·.exchange field old new) }
  | _, _ => s

/-- The actions of call `t`. -/
def performs (t : Nat) (s : Core) (a : Action) (r : Answer a) (s' : Core) : Prop :=
  allows t s a r ∧ s' = effect t s a r

/-- The word is changed by exchanges only. -/
theorem effect_word (t : Nat) (s : Core) (a : Action) (r : Answer a) :
    (effect t s a r).word = match a, r with
      | .exchange _ _ new, .ok () => new
      | _, _ => s.word := by
  cases a <;> first | rfl | (cases r <;> rfl)

/-- Scopes stay as they are, but for the steps that they took. -/
theorem effect_scopes (t : Nat) (s : Core) (a : Action) (r : Answer a) :
    (effect t s a r).scopes.map Prod.fst = match a with
      | .newScope scope => s.scopes.map Prod.fst ++ [scope]
      | _ => s.scopes.map Prod.fst := by
  cases a with
  | newScope scope => simp [effect]
  | takeStep number =>
    cases r with
    | false => rfl
    | true =>
      refine List.ext_getElem? fun i => ?_
      simp only [effect, List.getElem?_map, List.getElem?_modify]
      cases s.scopes[i]? with
      | none => rfl
      | some scope => by_cases hi : number = i <;> simp [hi]
  | _ => first | rfl | (cases r <;> rfl)

end NexusOs.HostSession
