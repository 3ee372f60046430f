import NexusOs.Mother.Journal

/-!
# A mission

The `Mission` of `coordinator.rs`, which the live coordinator and replay both keep, and what
moves it: `apply` for a transition the table accepted, `CallAccounting` (`model_calls.rs`) for
its model calls, and `Proof` (`page_proof.rs`) for a page mission's records. Of a contract and
of what the Owner is asked only the fields the coordinator reads are kept.
-/

namespace NexusOs.Mother

/-- `MAX_MISSIONS`. -/
def MAX_MISSIONS : Nat := 1024

/-- `MAX_EFFECTS_PER_CALL`. -/
def MAX_EFFECTS_PER_CALL : Nat := 16

/-- `MAX_MODEL_CALLS`: the most model calls one mission may make. -/
def MAX_MODEL_CALLS : Nat := 1000

/-- `Budget`. -/
structure Budget where
  maxDurationMs : Nat
  maxModelCalls : Nat
  maxMoneyMinor : Nat
  deriving DecidableEq

/-- `PageFacts`: the facts a page mission's page must show. -/
structure PageFacts where
  name : String
  hours : List String
  phone : String
  deriving DecidableEq

/-- `MissionContract`. -/
structure MissionContract where
  requestedFolder : Option String
  budget : Budget
  forbiddenEffects : List EffectKind
  pageFacts : Option PageFacts
  deriving DecidableEq

/-- A request the Owner is asked about: the contract's hash and the request's own label. -/
structure Confirmation where
  contractHash : ContractHash
  request : String
  deriving DecidableEq

/-- `CallAccounting`: the charges of one invocation. -/
structure CallAccounting where
  invocation : InvocationId
  cap : Nat
  budget : Nat
  next : Nat
  prepaid : Bool
  deriving DecidableEq

/-- `LaneCalls`: the live invocation's meter. -/
structure LaneCalls where
  invocation : InvocationId
  generation : Nat
  inFlight : Bool
  atMonoMs : Nat
  atWallMs : Nat
  deriving DecidableEq

/-- `u32::checked_add`. -/
def checkedAdd (a b : Nat) : Option Nat := if a + b < 2 ^ 32 then some (a + b) else none

/-- `CallAccounting::reserved`: the account of a lane call with `cap` calls out of `budget`, for a
mission that made `modelCalls`. A lane without calls has none. -/
def CallAccounting.reserved (modelCalls : Nat) (invocation : InvocationId) (cap budget : Nat) :
    Except ReplayViolation (Option CallAccounting) :=
  if cap = 0 ∧ budget = 0 then .ok none
  else if ¬(1 ≤ cap ∧ cap ≤ 4) ∨ ¬(1 ≤ budget ∧ budget ≤ MAX_MODEL_CALLS) ∨
      (checkedAdd modelCalls cap).all (budget < ·) then
    .error .modelChargeOutOfPlace
  else .ok (some { invocation, cap, budget, next := 1, prepaid := true })

/-- `CallAccounting::charge`: the account and the mission's total after one charge. -/
def CallAccounting.charge (account : CallAccounting) (invocation : InvocationId)
    (call total : Nat) : Except ReplayViolation (CallAccounting × Nat) :=
  if invocation ≠ account.invocation ∨ call ≠ account.next ∨ account.cap < call ∨
      (call = 1 ∧ account.prepaid = false) ∨ (1 < call ∧ account.budget ≤ total) then
    .error .modelChargeOutOfPlace
  else if call = 1 then
    .ok ({ account with prepaid := false, next := account.next + 1 }, total)
  else .ok ({ account with next := account.next + 1 }, total + 1)

/-- `Recorded`: a journaled receipt's fields. -/
structure Recorded where
  effect : Nat
  sha256 : String
  bytes : Nat
  policyHash : Option String
  overtaken : Bool
  deriving DecidableEq

/-- `Retained`: a retained deliverable, by reference. -/
structure Retained where
  invocation : InvocationId
  effect : Nat
  content : ContentId
  sha256 : String
  bytes : Nat
  deriving DecidableEq

/-- `Proof`: what the journal says of a page mission's deliverable and receipt. -/
structure Proof where
  returned : Option InvocationId := none
  retained : Option Retained := none
  receipt : Option Recorded := none
  invoked : Option LaneRole := none
  verified : Option Bool := none
  checks : Option (List (String × String)) := none
  early : Option PendingAction := none
  unrecorded : Bool := false
  deriving DecidableEq

/-- `Proof::receipt_effect`. -/
def Proof.receiptEffect (proof : Proof) : Option Nat := proof.receipt.map (·.effect)

/-- `EffectRequest`: an effect a lane asks for. The broker's intents are kept by their texts. -/
inductive EffectRequest where
  | file (relativePath : String) (write : Bool)
  | createFile (name content : String)
  | network (intent : String)
  | process (intent : String)
  | modelTool (intent : String)
  | spend (amountMinor : Nat) (purpose : String)
  deriving DecidableEq

/-- `Waiting`: an effect that waits for the Owner's approval, and what its phase had still to
do. -/
structure Waiting where
  phase : MissionState
  effect : Nat
  restRef : RestRef
  rest : Option (List EffectRequest)
  rolesLeft : List LaneRole
  deriving DecidableEq

/-- Why a mission ended: the closed code whose text the source keeps. -/
inductive Reason where
  | verifyFail (reason : VerifyFailReason)
  | block (reason : BlockReason)
  | fail (reason : FailReason)
  | lapse (reason : LapseReason)
  | settled (ending : SettlementEnd)
  deriving DecidableEq

/-- `Mission`. -/
structure Mission where
  contractRef : ContractRef
  contract : Option MissionContract := none
  state : MissionState := .draft
  consent : Option ContractHash := none
  generation : Nat := 0
  busy : Bool := false
  approvedWallMs : Option Nat := none
  monoRef : Nat := 0
  spentAtRef : Nat := 0
  modelCalls : Nat := 0
  nextEffect : Nat := 0
  unsettled : Option Nat := none
  dispatchedKind : Option EffectKind := none
  dispatchedInPhase : Bool := false
  pendingLane : Option InvocationId := none
  callAccounting : Option CallAccounting := none
  laneCalls : Option LaneCalls := none
  declaredModelBudgets : List Nat := []
  priorOutputs : List String := []
  reason : Option Reason := none
  asking : Option Confirmation := none
  resumeAsking : Option Confirmation := none
  waiting : Option Waiting := none
  awaitingSettled : Option Nat := none
  openAction : Option (Nat × PendingAction) := none
  held : Option HeldReason := none
  heldJournaled : Bool := false
  mustHold : Bool := false
  fileMode : Bool := false
  consentRequest : Option String := none
  unresolvedFile : Option Nat := none
  settlement : Option (Nat × SettleCause) := none
  acks : List PendingAction := []
  terminalUncertain : Bool := false
  terminalRecord : Option (Trigger × Option Nat) := none
  proof : Proof := {}
  deriving DecidableEq

namespace Mission

/-- `Mission::invalidate_calls`: end the invocation's charging. -/
def invalidateCalls (m : Mission) : Mission := { m with laneCalls := none, callAccounting := none }

/-- `Mission::consented`: the consent covers the current contract. -/
def consented (m : Mission) : Bool := m.consent == some m.contractRef.contractHash

/-- The `waited_file` of `apply`: the File the mission waits on, if it is unresolved. -/
def waitedFile (m : Mission) : Option Nat :=
  (m.waiting.map (·.effect)).filter (m.unresolvedFile == some ·)

/-- The triggers that resolve a waited File: its approval, a denial or a lapse. -/
def resolves : Trigger → Bool
  | .actionApproved _ _ | .actionDenied _ | .approvalLapsed _ _ => true
  | _ => false

/-- The head of `apply`: a waited File that the trigger resolves. -/
def resolveWaited (m : Mission) (trigger : Trigger) : Mission :=
  match m.waitedFile, resolves trigger with
  | some effect, true =>
    { m with
      acks := m.acks ++ ((m.openAction.filter (·.1 == effect)).map (·.2)).toList
      unresolvedFile := none }
  | _, _ => m

/-- The body of `apply`: what the trigger itself sets. -/
def applyTrigger (m : Mission) (monoNow : Nat) : Trigger → Mission
  | .revise contract =>
    { m with contractRef := contract, contract := none, consent := none, approvedWallMs := none }
  | .consent _ atWallMs =>
    { m with approvedWallMs := some atWallMs, monoRef := monoNow, spentAtRef := 0 }
  | .verifyFail reason => { m with reason := some (.verifyFail reason) }
  | .block reason => { m with reason := some (.block reason) }
  | .fail reason => { m with reason := some (.fail reason) }
  | .awaitApproval effect rest rolesLeft =>
    { m with
      waiting := some { phase := m.state, effect, restRef := rest, rest := none, rolesLeft } }
  | .actionApproved _ _ => { m with waiting := none }
  | .approvalLapsed _ reason => { m with waiting := none, reason := some (.lapse reason) }
  | .actionDenied _ => { m with waiting := none }
  | .settled _ action outcome ending =>
    { m with
      waiting := none
      reason := some (.settled ending)
      acks := if outcome.conclusive then m.acks ++ action.toList else m.acks
      unresolvedFile := none
      unsettled := none
      pendingLane := none
      terminalUncertain := !outcome.conclusive }
  | _ => m

/-- The `dispatched` of `apply`: an approved effect of the phase has run. -/
def dispatches : Trigger → Bool
  | .actionApproved _ _ => true
  | _ => false

/-- The end of `apply`: the new state, and what every transition resets. -/
def moveTo (m : Mission) (target : MissionState) (dispatched : Bool) : Mission :=
  { m with
    state := target
    held := if target.isTerminal then none else m.held
    heldJournaled := if target.isTerminal then false else m.heldJournaled
    mustHold := if target.isTerminal then false else m.mustHold
    generation := m.generation + 1
    dispatchedInPhase := dispatched
    asking := none
    resumeAsking := none
    awaitingSettled := none }

/-- `Mission::apply`: take a transition the table accepted. -/
def apply (m : Mission) (trigger : Trigger) (target : MissionState) (monoNow : Nat) : Mission :=
  (((m.invalidateCalls.resolveWaited trigger).applyTrigger monoNow trigger).moveTo target
    (dispatches trigger))

end Mission

end NexusOs.Mother
