import NexusOs.Fuel.Ledger

/-!
# The supervisor's fuel

`supervisor.rs`: agents with their remaining fuel, the reservations held against it, and the
lifecycle operations that pay with it. Numbers are the source's `u64`, whose additions and
subtractions wrap. The audit trail and the time machine are best effort for fuel and left out, but
for the two audit records that `register_agent` insists on.
-/

namespace NexusOs.Fuel

open Utf8

/-! ## Agents -/

/-- `AgentId`. -/
abbrev AgentId := Nat

/-- `AutonomyLevel`. -/
inductive AutonomyLevel where
  | l0 | l1 | l2 | l3 | l4 | l5 | l6
  deriving DecidableEq

/-- `autonomy_level_numeric`. -/
def AutonomyLevel.numeric : AutonomyLevel → Nat
  | .l0 => 0 | .l1 => 1 | .l2 => 2 | .l3 => 3 | .l4 => 4 | .l5 => 5 | .l6 => 6

/-- `AutonomyLevel::from_numeric`. -/
def AutonomyLevel.fromNumeric : Nat → Option AutonomyLevel
  | 0 => some .l0 | 1 => some .l1 | 2 => some .l2 | 3 => some .l3 | 4 => some .l4 | 5 => some .l5
  | 6 => some .l6
  | _ => none

/-- `AutonomyLevel::from_manifest`. -/
def AutonomyLevel.fromManifest (value : Option Nat) : AutonomyLevel :=
  (value.bind AutonomyLevel.fromNumeric).getD .l0

/-- `AgentState`. -/
inductive AgentState where
  | created
  | starting
  | running
  | paused
  | stopping
  | stopped
  | destroyed
  deriving DecidableEq

/-- `is_valid_transition`. -/
def isValidTransition : AgentState → AgentState → Bool
  | .created, .starting | .starting, .running | .starting, .stopped | .running, .paused
  | .running, .stopping | .paused, .running | .paused, .stopping | .stopping, .stopped
  | .stopped, .starting | .stopped, .destroyed => true
  | _, _ => false

/-- The fields of `AgentManifest` read for fuel, autonomy and scheduled tasks. -/
structure AgentManifest where
  name : Text
  fuelBudget : UInt64
  autonomyLevel : Option Nat
  consentPolicyPath : Option Text
  llmModel : Option Text
  monthlyFuelCap : Option UInt64
  capabilities : List Text := []

/-- `manifest.monthly_fuel_cap.unwrap_or(manifest.fuel_budget)`. -/
def AgentManifest.monthlyCap (m : AgentManifest) : UInt64 := m.monthlyFuelCap.getD m.fuelBudget

/-- `AgentHandle`, with the level of its autonomy guard. -/
structure AgentHandle where
  manifest : AgentManifest
  autonomyGuard : AutonomyLevel
  autonomyLevel : Nat
  state : AgentState
  remainingFuel : UInt64

/-- `SupervisorConfig`. -/
structure SupervisorConfig where
  maxL5Agents : Nat := 1
  maxL6Agents : Nat := 6

/-- `Supervisor`. -/
structure Supervisor where
  agents : Table AgentId AgentHandle := Table.empty
  fuelLedgers : Table AgentId AgentFuelLedger := Table.empty
  config : SupervisorConfig := {}

/-- `AgentError`, as far as these operations return it. -/
inductive AgentError where
  | notFound (id : AgentId)
  | alreadyRegistered (id : AgentId)
  | missingLedger (id : AgentId)
  | tooManyActive (level : AutonomyLevel) (max : Nat) (names : List Text)
  | invalidTransition (source target : AgentState)
  | fuelViolation (violation : FuelViolation) (reason : Text)
  | consentPolicyPathRefused
  | auditFailed
  | safetyHalted (id : AgentId) (reason reportId : Text)

/-- What an operation returns, and the supervisor after it. -/
abbrev Returned (α : Type) := Except AgentError α × Supervisor

/-- `SupervisorFuelReservation`. -/
structure SupervisorFuelReservation where
  id : Nat
  agentId : AgentId
  reservedAmount : UInt64
  actionType : Text
  deriving DecidableEq

/-! ## Fuel -/

/-- `apply_fuel_violation`: the agent's handle after it. -/
def AgentHandle.violate (h : AgentHandle) : AgentHandle :=
  { h with autonomyLevel := 0, remainingFuel := 0, autonomyGuard := .l0 }

variable (s : Supervisor) (id : AgentId)

/-- `apply_fuel_violation`: the supervisor after it. -/
def Supervisor.violate : Supervisor :=
  { s with
    fuelLedgers := s.fuelLedgers.modify id AgentFuelLedger.registerViolation
    agents := s.agents.modify id AgentHandle.violate }

/-- `Supervisor::apply_fuel_violation`. -/
def Supervisor.applyFuelViolation (violation : FuelViolation)
    (reason : Text) : AgentError × Supervisor :=
  (.fuelViolation violation reason, s.violate id)

/-- Change the remaining fuel of an agent. -/
def Supervisor.setFuel (f : UInt64 → UInt64) : Supervisor :=
  { s with agents := s.agents.modify id fun h => { h with remainingFuel := f h.remainingFuel } }

/-- The reason that `reserve_fuel` gives for a violation. -/
def insufficientFuel (actionType : Text) (maxCost have_ : UInt64) : Text :=
  "insufficient fuel for " ++ actionType ++ ": need " ++
    (toString maxCost.toNat).toList ++ ", have " ++ (toString have_.toNat).toList

/-- `Supervisor::reserve_fuel`, with the id it draws. -/
def Supervisor.reserveFuel (maxCost : UInt64) (actionType : Text)
    (draw : Nat) : Returned SupervisorFuelReservation :=
  match s.agents.get? id with
  | none => (.error (.notFound id), s)
  | some handle =>
    if handle.remainingFuel < maxCost then
      let (error, s) := s.applyFuelViolation id .overMonthlyCap
        (insufficientFuel actionType maxCost handle.remainingFuel)
      (.error error, s)
    else
      (.ok ⟨draw, id, maxCost, actionType⟩, s.setFuel id (· - maxCost))

/-- Record a spend in an agent's ledger; `onViolation` comes before a violation. -/
def Supervisor.recordSpend (model : Text) (inputTokens outputTokens : UInt32) (costUnits : UInt64)
    (reason : Text) (onViolation : Supervisor → Supervisor) : Returned Unit :=
  match s.fuelLedgers.get? id with
  | none => (.error (.missingLedger id), s)
  | some ledger =>
    let (result, ledger) := ledger.recordLlmSpend model inputTokens outputTokens costUnits
    let s := { s with fuelLedgers := s.fuelLedgers.insert id ledger }
    match result with
    | .ok () => (.ok (), s)
    | .error violation =>
      let (error, s) := (onViolation s).applyFuelViolation id violation reason
      (.error error, s)

/-- The model that `commit_fuel` books a spend under. -/
def Supervisor.modelName : Text :=
  ((s.agents.get? id).bind fun h => h.manifest.llmModel).getD "runtime"

/-- `Supervisor::commit_fuel`. -/
def Supervisor.commitFuel (reservation : SupervisorFuelReservation)
    (actualCost : UInt64) : Returned Unit :=
  let refund := saturatingSub reservation.reservedAmount actualCost
  let s := if 0 < refund then s.setFuel reservation.agentId (· + refund) else s
  s.recordSpend reservation.agentId (s.modelName reservation.agentId) 0 actualCost.toUInt32
    actualCost reservation.actionType fun s => s

/-- `Supervisor::cancel_fuel`. -/
def Supervisor.cancelFuel (reservation : SupervisorFuelReservation) : Supervisor :=
  s.setFuel reservation.agentId (· + reservation.reservedAmount)

/-- `Supervisor::record_llm_spend`. -/
def Supervisor.recordLlmSpend (model : Text) (inputTokens outputTokens : UInt32)
    (costUnits : UInt64) : Returned Unit :=
  match s.agents.get? id with
  | none => (.error (.notFound id), s)
  | some handle =>
    if handle.remainingFuel < costUnits then
      let (error, s) := s.applyFuelViolation id .overMonthlyCap
        "LLM token spend exceeded remaining fuel"
      (.error error, s)
    else
      (s.setFuel id (· - costUnits)).recordSpend id model inputTokens outputTokens costUnits
        "fuel hardening violation from LLM spend" (·.setFuel id (· + costUnits))

/-- `Supervisor::consume_fuel_units`. -/
def Supervisor.consumeFuelUnits (reason : Text) (units : UInt64) (draw : Nat) : Returned Unit :=
  match s.reserveFuel id units reason draw with
  | (.error error, s) => (.error error, s)
  | (.ok reservation, s) => s.commitFuel reservation units

/-! ## Lifecycle -/

/-- `Supervisor::register_agent`; `audited`: which of its two audit records are appended. -/
def Supervisor.registerAgent (manifest : AgentManifest)
    (initialState : AgentState) (audited : Bool × Bool) : Returned AgentId :=
  if (s.agents.get? id).isSome then (.error (.alreadyRegistered id), s)
  else if manifest.consentPolicyPath.isSome then (.error .consentPolicyPathRefused, s)
  else
    let level := AutonomyLevel.fromManifest manifest.autonomyLevel
    let handle : AgentHandle :=
      { manifest, autonomyGuard := level, autonomyLevel := level.numeric, state := initialState
        remainingFuel := manifest.monthlyCap }
    let s := { s with
      agents := s.agents.insert id handle
      fuelLedgers := s.fuelLedgers.insert id (.new manifest.monthlyCap) }
    if audited.1 && audited.2 then (.ok id, s) else (.error .auditFailed, s)

/-- The states of `active_sovereign_agents` and `active_transcendent_agents`. -/
def AgentState.isActive : AgentState → Bool
  | .running | .starting | .paused => true
  | _ => false

/-- The names of the other active agents of a level. -/
def Supervisor.othersActive (level : Nat) : List Text :=
  (s.agents.entries.filter fun e =>
    e.2.autonomyLevel = level && e.2.state.isActive && e.1 ≠ id).map fun e => e.2.manifest.name

/-- The check of one of the caps, for an agent of a level. -/
def Supervisor.checkCap (level capped : AutonomyLevel) (max : Nat) : Option AgentError :=
  let others := s.othersActive id capped.numeric
  if level = capped ∧ max ≤ others.length then
    some (.tooManyActive capped max (others.mergeSort fun a b => decide (a ≤ b)))
  else none

/-- The checks of the L5 and the L6 cap. -/
def Supervisor.checkCaps (level : AutonomyLevel) : Option AgentError :=
  (s.checkCap id level .l5 s.config.maxL5Agents).or (s.checkCap id level .l6 s.config.maxL6Agents)

/-- `Supervisor::transition_agent_state`, also as `transition_to_running` inlines it. -/
def Supervisor.transitionAgentState (target : AgentState) : Returned Unit :=
  match s.agents.get? id with
  | none => (.error (.notFound id), s)
  | some handle =>
    if isValidTransition handle.state target then
      (.ok (), { s with agents := s.agents.modify id fun h => { h with state := target } })
    else (.error (.invalidTransition handle.state target), s)

/-- Go on after a part of an operation succeeded. -/
def andThen (part : Returned Unit) (next : Supervisor → Returned Unit) : Returned Unit :=
  match part with
  | (.ok (), s) => next s
  | (.error error, s) => (.error error, s)

/-- `Supervisor::transition_to_running`. -/
def Supervisor.transitionToRunning (draw : Nat) : Returned Unit :=
  match s.agents.get? id with
  | none => (.error (.notFound id), s)
  | some handle =>
    if handle.state = .running then (.ok (), s)
    else
      match s.checkCaps id (AutonomyLevel.fromManifest (some handle.autonomyLevel)) with
      | some error => (.error error, s)
      | none =>
        andThen (s.transitionAgentState id .starting) fun s =>
        andThen (s.consumeFuelUnits id "supervisor.start" 1 draw) fun s =>
        s.transitionAgentState id .running

/-- `Supervisor::stop_agent`. -/
def Supervisor.stopAgent (draw : Nat) : Returned Unit :=
  match s.agents.get? id with
  | none => (.error (.notFound id), s)
  | some handle =>
    match handle.state with
    | .running | .paused =>
      andThen (s.consumeFuelUnits id "supervisor.stop" 2 draw) fun s =>
      andThen (s.transitionAgentState id .stopping) fun s =>
      s.transitionAgentState id .stopped
    | .stopping | .stopped | .destroyed => (.ok (), s)
    | state => (.error (.invalidTransition state .stopping), s)

/-- `Supervisor::pause_agent`. -/
def Supervisor.pauseAgent : Returned Unit :=
  match s.agents.get? id with
  | none => (.error (.notFound id), s)
  | some handle =>
    match handle.state with
    | .running => s.transitionAgentState id .paused
    | .paused => (.ok (), s)
    | state => (.error (.invalidTransition state .paused), s)

/-- `Supervisor::resume_agent`. -/
def Supervisor.resumeAgent : Returned Unit :=
  match s.agents.get? id with
  | none => (.error (.notFound id), s)
  | some handle =>
    match handle.state with
    | .paused => s.transitionAgentState id .running
    | .running => (.ok (), s)
    | state => (.error (.invalidTransition state .running), s)

/-- The first part of `restart_agent`: stop an agent that runs or is paused. -/
def Supervisor.stopIfActive (state : AgentState) (draw : Nat) : Returned Unit :=
  match state with
  | .running | .paused => s.stopAgent id draw
  | _ => (.ok (), s)

/-- `Supervisor::restart_agent`, with the ids it draws. -/
def Supervisor.restartAgent (draw draw' : Nat) : Returned Unit :=
  match s.agents.get? id with
  | none => (.error (.notFound id), s)
  | some handle =>
    match s.checkCaps id ((AutonomyLevel.fromNumeric handle.autonomyLevel).getD .l0) with
    | some error => (.error error, s)
    | none =>
      andThen (s.stopIfActive id handle.state draw) fun s =>
      andThen (s.consumeFuelUnits id "supervisor.restart" 1 draw') fun s =>
      andThen (s.transitionAgentState id .starting) fun s =>
      s.transitionAgentState id .running

/-- `Supervisor::restore_fuel_report`. -/
def Supervisor.restoreFuelReport (report : FuelAuditReport)
    (remainingFuel : UInt64) : Returned Unit :=
  match s.agents.get? id with
  | none => (.error (.notFound id), s)
  | some _ =>
    let s := s.setFuel id fun _ => remainingFuel
    (.ok (), { s with fuelLedgers := s.fuelLedgers.insert id (.fromReport report) })

/-- `Supervisor::start_agent_with_id`. -/
def Supervisor.startAgentWithId (manifest : AgentManifest)
    (audited : Bool × Bool) (draw : Nat) : Returned AgentId :=
  match s.registerAgent id manifest .created audited with
  | (.error error, s) => (.error error, s)
  | (.ok _, s) =>
    let (result, s) := s.transitionToRunning id draw
    (result.map fun _ => id, s)

/-- `SafetyAction`. -/
inductive SafetyAction where
  | continue
  | degraded (reason : Text)
  | halted (reason reportId : Text)

/-- `transition_agent_state`, and `force_transition_agent_state` where it fails. -/
def Supervisor.crushAgentState (target : AgentState) : Supervisor :=
  match s.transitionAgentState id target with
  | (.ok (), s) => s
  | (.error _, s) => { s with agents := s.agents.modify id fun h => { h with state := target } }

/-- `Supervisor::apply_safety_action`; `audited`: whether its audit record is appended. -/
def Supervisor.applySafetyAction (audited : Bool) : SafetyAction → Returned Unit
  | .continue => (.ok (), s)
  | .degraded _ => (if audited then .ok () else .error .auditFailed, s)
  | .halted reason reportId =>
    let active := ((s.agents.get? id).map fun h => h.state.isActive).getD false
    (.error (.safetyHalted id reason reportId),
      if active then (s.crushAgentState id .stopping).crushAgentState id .stopped else s)

/-- What the next two have in common: the operation's audit record, if it makes one, is appended if
`noted`, and the safety supervisor's answer is acted on. -/
def Supervisor.actOnSafety (noted : Bool) (action : SafetyAction)
    (audited : Bool) : Returned Unit :=
  if (s.agents.get? id).isNone then (.error (.notFound id), s)
  else if !noted then (.error .auditFailed, s)
  else s.applySafetyAction id audited action

/-- `Supervisor::record_subsystem_metric`, with the safety supervisor's answer. -/
def Supervisor.recordSubsystemMetric (answer : SafetyAction) (audited : Bool) : Returned Unit :=
  s.actOnSafety id true answer audited

/-- `Supervisor::manual_halt_agent`. -/
def Supervisor.manualHaltAgent (operatorId reason : Text)
    (noted : Bool) (reportId : Text) : Returned Unit :=
  s.actOnSafety id noted (.halted ("manual override halt by " ++ operatorId ++
    ": " ++ reason) reportId) true

/-! ## Calls -/

/-- A call of the supervisor, with the ids it draws. -/
inductive Call where
  | registerAgent (id : AgentId) (manifest : AgentManifest) (initialState : AgentState)
      (audited : Bool × Bool)
  | reserveFuel (id : AgentId) (maxCost : UInt64) (actionType : Text) (draw : Nat)
  | commitFuel (reservation : SupervisorFuelReservation) (actualCost : UInt64)
  | cancelFuel (reservation : SupervisorFuelReservation)
  | recordLlmSpend (id : AgentId) (model : Text) (inputTokens outputTokens : UInt32)
      (costUnits : UInt64)
  | transitionToRunning (id : AgentId) (draw : Nat)
  | stopAgent (id : AgentId) (draw : Nat)
  | restartAgent (id : AgentId) (draw draw' : Nat)
  | pauseAgent (id : AgentId)
  | resumeAgent (id : AgentId)
  | restoreFuelReport (id : AgentId) (report : FuelAuditReport) (remainingFuel : UInt64)

/-- The agent that a call is about. -/
def Call.agent : Call → AgentId
  | .registerAgent id _ _ _ | .reserveFuel id _ _ _ | .recordLlmSpend id _ _ _ _
  | .transitionToRunning id _ | .stopAgent id _ | .restartAgent id _ _ | .pauseAgent id
  | .resumeAgent id | .restoreFuelReport id _ _ => id
  | .commitFuel reservation _ | .cancelFuel reservation => reservation.agentId

/-- An answer, with the reservation it makes, if any. -/
def made {α : Type} (reservation : α → Option SupervisorFuelReservation) (answer : Returned α) :
    Returned (Option SupervisorFuelReservation) :=
  (answer.1.map reservation, answer.2)

/-- The answer of a call, with its reservation, if any, and the supervisor after it. -/
def Supervisor.run : Call → Returned (Option SupervisorFuelReservation)
  | .registerAgent id manifest initialState audited =>
    made (fun _ => none) (s.registerAgent id manifest initialState audited)
  | .reserveFuel id maxCost actionType draw => made some (s.reserveFuel id maxCost actionType draw)
  | .commitFuel reservation actualCost => made (fun _ => none) (s.commitFuel reservation actualCost)
  | .cancelFuel reservation => (.ok none, s.cancelFuel reservation)
  | .recordLlmSpend id model inputTokens outputTokens costUnits =>
    made (fun _ => none) (s.recordLlmSpend id model inputTokens outputTokens costUnits)
  | .transitionToRunning id draw => made (fun _ => none) (s.transitionToRunning id draw)
  | .stopAgent id draw => made (fun _ => none) (s.stopAgent id draw)
  | .restartAgent id draw draw' => made (fun _ => none) (s.restartAgent id draw draw')
  | .pauseAgent id => made (fun _ => none) (s.pauseAgent id)
  | .resumeAgent id => made (fun _ => none) (s.resumeAgent id)
  | .restoreFuelReport id report remainingFuel =>
    made (fun _ => none) (s.restoreFuelReport id report remainingFuel)

/-- The error says that a fuel violation was applied. -/
def AgentError.isViolation : AgentError → Bool
  | .fuelViolation _ _ => true
  | _ => false

/-- The answer says that a fuel violation was applied. -/
def isViolation {α : Type} : Except AgentError α → Bool
  | .error error => error.isViolation
  | .ok _ => false

end NexusOs.Fuel
