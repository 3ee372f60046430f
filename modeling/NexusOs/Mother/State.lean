import NexusOs.Mother.Codes

/-!
# The mission state machine

The references a record carries, and `state.rs`: the states of a mission, its triggers and the
one transition table, used both live and when a journal is replayed. Numbers that the source
keeps in a `u64` and only counts up or compares are natural numbers.
-/

namespace NexusOs.Mother

/-- `MissionId`: a mission's name. -/
abbrev MissionId := Nat

/-- `SESSION`: the name session records carry. -/
def SESSION : MissionId := 0

/-- `ContractHash`, by its hexadecimal form. -/
structure ContractHash where
  hex : String
  deriving DecidableEq

/-- `ContentId`: a content of the private store, by its hexadecimal form. -/
structure ContentId where
  hex : String
  deriving DecidableEq

/-- `ContractRef`: a contract, by reference. -/
structure ContractRef where
  contractHash : ContractHash
  content : ContentId
  bytes : Nat
  deriving DecidableEq

/-- `RestRef`: a paused phase's rest, by reference. -/
structure RestRef where
  content : ContentId
  count : Nat
  bytes : Nat
  deriving DecidableEq

/-- `PendingAction`: the identity of an action a mission waits on at the broker. -/
structure PendingAction where
  run : String
  commitment : String
  deadlineMonoMs : Nat
  deriving DecidableEq

/-- `InvocationId`: one call of a lane. -/
structure InvocationId where
  mission : MissionId
  seq : Nat
  deriving DecidableEq

/-- `MissionState`. -/
inductive MissionState where
  | draft
  | awaitingConsent
  | approved
  | investigating
  | building
  | verifying
  | explaining
  | done
  | stopped
  | denied
  | failed
  | blocked
  | awaitingApproval
  deriving DecidableEq

variable {s : MissionState}

namespace MissionState

/-- `is_terminal`: a terminal mission never moves again. -/
def isTerminal : MissionState → Bool
  | done | stopped | denied | failed | blocked => true
  | _ => false

/-- `is_working`: the states in which lanes run and effects may be dispatched. -/
def isWorking : MissionState → Bool
  | investigating | building | verifying | explaining => true
  | _ => false

/-- `may_wait`: the phases in which an effect may wait for the Owner's approval. -/
def mayWait : MissionState → Bool
  | investigating | building | verifying => true
  | _ => false

/-- Whether a mission has been started and has not ended. -/
def underWay (s : MissionState) : Bool := s.isWorking || s == .awaitingApproval

theorem isWorking_of_mayWait (h : s.mayWait) : s.isWorking := by cases s <;> first | rfl | cases h

theorem not_isTerminal_of_isWorking (h : s.isWorking) : s.isTerminal = false := by
  cases s <;> first | rfl | cases h

end MissionState

/-- `Trigger`: what moves a mission. -/
inductive Trigger where
  | revise (contract : ContractRef)
  | submit (hash : ContractHash)
  | consent (hash : ContractHash) (atWallMs : Nat)
  | deny (hash : ContractHash)
  | start
  | phaseDone
  | verifyPass
  | verifyFail (reason : VerifyFailReason)
  | block (reason : BlockReason)
  | fail (reason : FailReason)
  | stop (reason : StopReason)
  | awaitApproval (effect : Nat) (rest : RestRef) (rolesLeft : List LaneRole)
  | actionApproved (effect : Nat) (phase : MissionState)
  | actionDenied (effect : Nat)
  | approvalLapsed (effect : Nat) (reason : LapseReason)
  | settled (effect : Nat) (action : Option PendingAction) (outcome : SettlementOutcome)
      (ending : SettlementEnd)
  deriving DecidableEq

open MissionState in
/-- `transition`: the one table. `none` is the source's `IllegalTransition`. -/
def transition (source : MissionState) : Trigger → Option MissionState
  | .revise _ =>
    match source with
    | draft | awaitingConsent | approved => some draft
    | _ => none
  | .submit _ => if source = draft then some awaitingConsent else none
  | .consent _ _ => if source = awaitingConsent then some approved else none
  | .deny _ => if source = awaitingConsent then some denied else none
  | .start => if source = approved then some investigating else none
  | .phaseDone =>
    match source with
    | investigating => some building
    | building => some verifying
    | explaining => some done
    | _ => none
  | .verifyPass => if source = verifying then some explaining else none
  | .verifyFail _ => if source = verifying then some failed else none
  | .block _ => if source = approved ∨ source.isWorking then some blocked else none
  | .fail _ => if source.isWorking then some failed else none
  | .stop _ => if source.isTerminal then none else some stopped
  | .awaitApproval _ _ _ => if source.mayWait then some awaitingApproval else none
  | .actionApproved _ phase =>
    if source = awaitingApproval ∧ phase.mayWait then some phase else none
  | .actionDenied _ => if source = awaitingApproval then some denied else none
  | .approvalLapsed _ _ => if source = awaitingApproval then some blocked else none
  | .settled _ _ _ ending =>
    if source = awaitingApproval ∨ source.mayWait then
      some (match ending with
        | .block _ => blocked
        | .stop _ => stopped)
    else none

/-- A terminal mission takes no trigger. -/
theorem transition_of_isTerminal (h : s.isTerminal) (t : Trigger) : transition s t = none := by
  cases s <;> first | (cases t <;> rfl) | cases h

variable {s' : MissionState}

/-- A Stop ends any mission that has not ended. -/
theorem transition_stop {reason : StopReason} :
    transition s (.stop reason) = some s' ↔ s.isTerminal = false ∧ s' = .stopped := by
  simp [transition, eq_comm (a := s')]

variable {trigger : Trigger}

/-- How a mission leaves a working phase. -/
theorem transition_of_isWorking (hs : s.isWorking) (h : transition s trigger = some s') :
    trigger = .phaseDone ∨ trigger = .verifyPass ∨
      (∃ effect rest rolesLeft, trigger = .awaitApproval effect rest rolesLeft) ∨
      s'.isTerminal := by
  cases trigger with
  | phaseDone | verifyPass | awaitApproval => simp
  | settled effect action outcome ending =>
    obtain ⟨-, h⟩ := Option.ite_none_right_eq_some.mp h
    cases ending <;> cases h <;> simp [MissionState.isTerminal]
  | _ => cases s <;> cases hs <;> cases h <;> simp [MissionState.isTerminal]

/-- How a mission leaves its wait. -/
theorem transition_awaitingApproval (h : transition .awaitingApproval trigger = some s') :
    (∃ effect phase, trigger = .actionApproved effect phase) ∨ s'.isTerminal := by
  cases trigger with
  | actionApproved => simp
  | settled effect action outcome ending =>
    cases ending <;> cases h <;> simp [MissionState.isTerminal]
  | _ => cases h <;> simp [MissionState.isTerminal]

/-- How a mission gets or stays under way. -/
theorem underWay_of_transition (h : transition s trigger = some s') (hs' : s'.underWay) :
    trigger = .start ∨ s.underWay ∧ (trigger = .phaseDone ∨ trigger = .verifyPass ∨
      (∃ effect rest rolesLeft, trigger = .awaitApproval effect rest rolesLeft) ∨
      ∃ effect phase, trigger = .actionApproved effect phase) := by
  cases trigger with
  | start => exact .inl rfl
  | phaseDone | verifyPass | awaitApproval =>
    cases s <;> first | exact .inr ⟨rfl, by simp⟩ | cases h
  | actionApproved effect phase =>
    obtain ⟨⟨rfl, -⟩, -⟩ := Option.ite_none_right_eq_some.mp h
    exact .inr ⟨rfl, by simp⟩
  | settled effect action outcome ending =>
    obtain ⟨-, h⟩ := Option.ite_none_right_eq_some.mp h
    cases ending <;> cases h <;> cases hs'
  | _ => cases s <;> cases h <;> cases hs'

end NexusOs.Mother
