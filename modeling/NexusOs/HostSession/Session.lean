import NexusOs.HostSession.Operations

/-!
# A host session

Any number of calls of the operations, interleaved action by action. What an operation hands to
its caller (a request, a producer, the seal) is there for later calls; a producer and the seal are
handed over once.
-/

namespace NexusOs.HostSession

open Threads Transition

/-- `SessionState`. -/
inductive SessionState where
  | bootstrap
  | normal
  | emergency
  | failed
  | closingNormal
  | closingRestricted
  | sealedFinalizing
  | closedClean
  | closedUnclean
  deriving DecidableEq

/-- `state`. -/
def state (word : Word) : SessionState :=
  if word &&& Mask.sealed ≠ 0 then
    if word &&& Mask.ready = 0 then .sealedFinalizing
    else if word &&& Mask.failed ≠ 0 then .closedUnclean
    else .closedClean
  else if word &&& Mask.closing ≠ 0 then
    if word &&& (Mask.emergency ||| Mask.failed) = 0 then .closingNormal else .closingRestricted
  else if word &&& Mask.failed ≠ 0 then .failed
  else if word &&& Mask.emergency ≠ 0 then .emergency
  else if word &&& Mask.ready ≠ 0 then .normal
  else .bootstrap

/-- The operations. -/
inductive Operation where
  | emergency
  | fail
  | failSession
  | accept (kind : CommandKind) (sequence : Nat)
  | engageTagged (tag : HaltTag)
  | engageEmergency
  | admission (number : Nat) (scope : RequestScope)
  | finishBootstrap
  | register (kind : ProducerKind) (settlement : Bool)
  | joined (producer : Producer)
  | dropProducer (producer : Producer)
  | recordStop (event : IngressEvent)
  | stopSpawnFailed (event : IngressEvent)
  | settleCloseAuthority (request : SessionRequest)
  | sealClose (request : SessionRequest)
  | beginMotherEnd
  | observeMotherEnd
  | closePrimary
  | finishDelivery
  | dropSeal
  deriving DecidableEq

/-- A call of an operation, whose loops have some number of rounds. -/
structure Call where
  op : Operation
  rounds : Nat
  deriving DecidableEq

/-- What a call hands to its caller. -/
inductive Result where
  | nothing
  | request (request : SessionRequest)
  | producer (producer : Producer)
  | closeSeal
  deriving DecidableEq

/-- The result of a call that hands something over if it succeeds. -/
def handing {ε α : Type} (f : α → Result) : Except ε α → Result
  | .ok a => f a
  | .error _ => .nothing

/-- A call that hands nothing over. -/
def quietly {α : Type} (p : P α) : P Result := do
  let _ ← p
  return .nothing

/-- The program of a call. -/
def program (c : Call) : P Result :=
  match c.op with
  | .emergency => quietly (emergency c.rounds)
  | .fail => quietly (fail c.rounds)
  | .failSession => quietly (failSession c.rounds)
  | .accept kind sequence => handing .request <$> accept kind sequence c.rounds
  | .engageTagged tag => quietly (latch tag false c.rounds)
  | .engageEmergency => quietly (latch .emergencyStop true c.rounds)
  | .admission number scope => quietly (admitScope number scope c.rounds)
  | .finishBootstrap => quietly (finishBootstrap c.rounds)
  | .register kind settlement => handing .producer <$> register kind settlement c.rounds
  | .joined producer => quietly (joined producer c.rounds)
  | .dropProducer producer => quietly (dropProducer producer c.rounds)
  | .recordStop event => quietly (recordStop event c.rounds)
  | .stopSpawnFailed event => quietly (stopSpawnFailed event c.rounds)
  | .settleCloseAuthority request => quietly (settleCloseAuthority request c.rounds)
  | .sealClose request => (handing (fun _ => .closeSeal) <| ·.getD (.error .restricted)) <$>
      sealClose request c.rounds
  | .beginMotherEnd => quietly beginMotherEnd
  | .observeMotherEnd => quietly observeMotherEnd
  | .closePrimary => quietly closePrimary
  | .finishDelivery => quietly (finishDelivery c.rounds)
  | .dropSeal => quietly (finish false c.rounds)

/-- When a call may begin, and what it takes from its caller. -/
def begins (s : Core) (c : Call) (s' : Core) : Prop :=
  match c.op with
  | .admission number scope => s.scopes[number]?.map Prod.fst = some scope ∧ s' = s
  | .joined producer | .dropProducer producer =>
    producer ∈ s.handles ∧ s' = { s with handles := s.handles.erase producer }
  | .settleCloseAuthority request | .sealClose request => request ∈ s.requests ∧ s' = s
  | .beginMotherEnd | .observeMotherEnd | .closePrimary => s.closeSeal = true ∧ s' = s
  | .finishDelivery | .dropSeal => s.closeSeal = true ∧ s' = { s with closeSeal := false }
  | _ => s' = s

/-- What becomes of the result of a call. -/
def delivers (s : Core) (_ : Call) (result : Result) (s' : Core) : Prop :=
  match result with
  | .nothing => s' = s
  | .request request => s' = { s with requests := request :: s.requests }
  | .producer producer => s' = { s with handles := producer :: s.handles }
  | .closeSeal => s' = { s with closeSeal := true }

/-- The machine of a session. -/
def machine : Machine Answer Core Call Result where
  program := program
  begins := begins
  performs := performs
  delivers := delivers

abbrev Moment := Threads.Moment Answer Core Call Result

abbrev Event := Threads.Event Answer Call Result

abbrev State := Threads.State Answer Core Call Result

/-- A run of a session from its opening. -/
def SessionRun (events : List Event) (s : State) : Prop :=
  Run (Step machine) (State.initial {}) events s

end NexusOs.HostSession
