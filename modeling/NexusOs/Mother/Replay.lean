import NexusOs.Mother.Mission

/-!
# Replaying a journal

`replay` of `coordinator.rs` with the replay of the proof records (`page_proof.rs`): one
verified entry rebuilds its mission a step further, or is refused with a code. A journal is
replayed entry by entry from nothing (`replayAll`).
-/

namespace NexusOs.Mother

/-- `Session`: where replay is in the journal's sessions. -/
inductive Session where
  | never
  | opened
  | closed
  deriving DecidableEq

/-- The missions, by their ids in order. -/
abbrev Missions := Std.TreeMap MissionId Mission

/-- What `open` rebuilds: the missions, the next mission's number and the session. -/
structure Replayed where
  missions : Missions := ∅
  nextMission : Nat := 1
  session : Session := .never

/-- `phase_roles`: the lanes a working phase runs, in order. -/
def phaseRoles : MissionState → List LaneRole
  | .investigating => [.sentinel, .researcherA, .researcherB, .skeptic]
  | .building => [.sentinel, .builder]
  | .verifying => [.sentinel, .verifier]
  | _ => []

/-! ## The proof records -/

namespace PageProof

variable (m : Mission)

/-- `early_conflict`: a `Settled` line for an early receipt's effect that names another action. -/
def earlyConflict (effect : Nat) (action : Option PendingAction) : Bool :=
  m.proof.receiptEffect == some effect && m.proof.early.any fun early => action != some early

/-- `settled_end`: the settlement end replay expects for a page publication. -/
def settledEnd (effect : Nat) (published : Bool) : Option SettlementEnd :=
  if published && m.proof.retained.any (·.effect == effect) &&
      m.proof.receiptEffect != some effect then
    some (.block .receiptMissing)
  else none

/-- Replay of a `DeliverableRetained`. -/
def replayRetained (mission : MissionId) (retained : Retained) : Except ReplayViolation Mission :=
  if m.proof.retained.isSome then .error .proofConflict
  else if m.state ≠ .building ∨ m.pendingLane.isSome ∨ m.unsettled.isSome ∨
      m.openAction.isSome ∨ m.settlement.isSome ∨ retained.effect ≠ m.nextEffect ∨
      retained.invocation.mission ≠ mission ∨ m.proof.returned ≠ some retained.invocation then
    .error .proofOutOfPlace
  else .ok { m with proof := { m.proof with retained := some retained } }

/-- Whether a receipt of `effect` is settlement evidence. -/
def settling (effect : Nat) (overtaken : Bool) : Bool :=
  overtaken && m.unresolvedFile == some effect &&
    match m.settlement with
    | some (started, _) => started == effect
    | none => m.waiting.any (·.effect == effect)

/-- Whether a receipt of `effect` names the action that is open for it. -/
def linked (effect : Nat) (action : PendingAction) (overtaken : Bool) : Bool :=
  match m.openAction with
  | some opened => opened == (effect, action)
  | none => settling m effect overtaken && m.settlement.isSome

/-- Replay of a `PublicationReceipt`. -/
def replayReceipt (action : PendingAction) (receipt : Recorded) : Except ReplayViolation Mission :=
  if m.proof.retained.all (·.effect != receipt.effect) then .error .proofOutOfPlace
  else if m.proof.receipt.isSome ∨ ¬linked m receipt.effect action receipt.overtaken then
    .error .proofConflict
  else if ¬(receipt.policyHash.isSome ∧ m.state.mayWait ∧ m.waiting.isNone ∧
        m.unresolvedFile.isNone) ∧ ¬settling m receipt.effect receipt.overtaken then
    .error .proofOutOfPlace
  else
    .ok { m with
      proof := { m.proof with
        early := if m.openAction.isNone then some action else m.proof.early
        receipt := some receipt } }

/-- Replay of a `VerificationRecorded`. -/
def replayVerification (mission : MissionId) (invocation : InvocationId)
    (effect : Nat) (checks : List (String × String)) : Except ReplayViolation Mission :=
  if m.proof.verified.isSome then .error .proofConflict
  else if ¬(m.proof.receipt.any fun r =>
    r.effect == effect && r.policyHash.isSome && !r.overtaken) ∨
      m.state ≠ .verifying ∨ m.pendingLane.isSome ∨ invocation.mission ≠ mission ∨
      m.proof.returned ≠ some invocation ∨ m.proof.invoked ≠ some .verifier then
    .error .proofOutOfPlace
  else
    .ok { m with
      proof := { m.proof with
        verified := some (checks.all (·.2 == "pass")), checks := some checks } }

end PageProof

/-! ## Transitions -/

/-- The triggers that end a mission without settling its File. -/
def Trigger.endsUnsettledFile : Trigger → Bool
  | .stop _ | .block _ | .fail _ | .verifyFail _ => true
  | _ => false

/-- The triggers the live coordinator takes while an effect is unsettled. -/
def Trigger.whileUnsettled : Trigger → Bool
  | .stop _ | .settled _ _ _ _ | .block .effectOutcomeUnknown => true
  | _ => false

/-- Whether a trigger is a settlement's terminal line. -/
def Trigger.isSettled : Trigger → Bool
  | .settled _ _ _ _ => true
  | _ => false

variable (m : Mission)

/-- What replay checks of a `Settled` line: the exact File, its first cause's end, and the
journaled identity. -/
def settledGuard (effect : Nat) (action : Option PendingAction)
    (outcome : SettlementOutcome) (ending : SettlementEnd) : Except ReplayViolation Unit := do
  let expected ←
    match m.settlement with
    | some (started, cause) =>
      if started = effect then pure (some (cause.end outcome)) else .error .settlementConflict
    | none =>
      if m.unresolvedFile = some effect ∧ m.waiting.any (·.effect == effect) then
        pure (outcome.ordinaryEnd.or outcome.deadlineEnd)
      else .error .settlementOutOfPlace
  let published := match outcome with
    | .published _ _ => true
    | _ => false
  if ((PageProof.settledEnd m effect (published && action.isSome)).or expected) ≠ some ending then
    .error .settlementConflict
  else if m.openAction.any fun opened => opened.1 == effect && action != some opened.2 then
    .error .settlementConflict
  else if PageProof.earlyConflict m effect action then .error .proofConflict
  else .ok ()

/-- What replay checks of a trigger against the mission it moves. -/
def triggerGuard : Trigger → Except ReplayViolation Unit
  | .submit hash => if hash ≠ m.contractRef.contractHash then .error .submitOtherHash else .ok ()
  | .consent hash _ | .deny hash =>
    if hash ≠ m.contractRef.contractHash then .error .consentOtherHash else .ok ()
  | .start => if m.consented then .ok () else .error .workWithoutConsent
  | .verifyPass =>
    if m.proof.retained.isSome ∧ m.proof.verified ≠ some true then .error .proofOutOfPlace
    else .ok ()
  | .awaitApproval effect rest rolesLeft =>
    if m.awaitingSettled ≠ some effect then .error .waitNotAwaiting
    else if MAX_EFFECTS_PER_CALL ≤ rest.count ∨ ¬rolesLeft <:+ phaseRoles m.state ∨
        (phaseRoles m.state).length ≤ rolesLeft.length then
      .error .waitNotWritten
    else .ok ()
  | .actionApproved effect phase =>
    if m.waiting.all fun w => w.effect != effect || w.phase != phase then
      .error .approvalOfOtherWait
    else .ok ()
  | .actionDenied effect | .approvalLapsed effect _ =>
    if m.waiting.all (·.effect != effect) then .error .endOfOtherWait else .ok ()
  | .settled effect action outcome ending => settledGuard m effect action outcome ending
  | _ => .ok ()

/-- A transition the table accepted, taken by replay: `apply`, the record of an end, and the
consent that the verified journal records. -/
def Mission.moved (m : Mission) (trigger : Trigger) (target : MissionState) (seq : Nat) : Mission :=
  let moved := m.apply trigger target 0
  { moved with
    terminalRecord := if target.isTerminal then some (trigger, some seq) else moved.terminalRecord
    consent :=
      match trigger with
      | .consent hash _ => some hash
      | _ => moved.consent }

/-- Replay of a `Transition` at `seq`. -/
def replayTransition (seq : Nat) (trigger : Trigger) : Except ReplayViolation Mission :=
  match transition m.state trigger with
  | none => .error .illegalTransition
  | some target =>
    if m.unresolvedFile.isSome ∧ trigger.endsUnsettledFile then .error .settlementConflict
    else if m.settlement.isSome ∧ ¬trigger.isSettled then .error .settlementConflict
    else if m.unsettled.isSome ∧ ¬trigger.whileUnsettled then .error .transitionWhileUnsettled
    else do
      triggerGuard m trigger
      return m.moved trigger target seq

/-! ## The other records of a mission -/

/-- The records the live coordinator writes while a mission is held. -/
def Event.whileHeld : Event → Bool
  | .transition (.stop _) | .transition (.settled _ _ _ _) => true
  | .approvalClosed _ | .resumed | .settlementStarted _ _ => true
  | _ => false

/-- What recovery writes before a mission's hold. -/
def Mission.beforeHold : Event → Bool
  | .held _ | .laneOvertaken _ | .approvalClosed _ | .settlementStarted _ _ => true
  | .transition trigger => (transition m.state trigger).any MissionState.isTerminal
  | _ => false

/-- Replay of a `FileModeSelected`. -/
def replayFileMode : Except ReplayViolation Mission :=
  if m.fileMode ∨ m.state ≠ .draft ∨ m.generation ≠ 0 then .error .settlementConflict
  else .ok { m with fileMode := true }

/-- Replay of a `ModelCallCharged`. -/
def replayCharge (invocation : InvocationId) (call : Nat) : Except ReplayViolation Mission :=
  if m.pendingLane ≠ some invocation ∨ ¬m.state.isWorking ∨ m.settlement.isSome then
    .error .modelChargeOutOfPlace
  else
    match m.callAccounting with
    | none => .error .modelChargeOutOfPlace
    | some account => do
      let (account, total) ← account.charge invocation call m.modelCalls
      return { m with callAccounting := some account, modelCalls := total }

/-- Replay of a `LaneInvoked` at `seq`. -/
def replayInvoked (mission : MissionId) (seq : Nat) (invocation : InvocationId)
    (role : LaneRole) (cap budget : Nat) : Except ReplayViolation Mission :=
  if m.settlement.isSome then .error .settlementConflict
  else if ¬m.state.isWorking ∨ m.state = .explaining ∨ m.pendingLane.isSome ∨
      m.openAction.isSome ∨ invocation.mission ≠ mission ∨ invocation.seq ≠ seq then
    .error .laneOutOfPlace
  else do
    let account ← CallAccounting.reserved m.modelCalls invocation cap budget
    match checkedAdd m.modelCalls 1 with
    | none => .error .modelChargeOutOfPlace
    | some total =>
      return { m with
        callAccounting := account
        declaredModelBudgets :=
          if 0 < cap then m.declaredModelBudgets ++ [budget] else m.declaredModelBudgets
        pendingLane := some invocation
        proof := { m.proof with returned := none, invoked := some role }
        modelCalls := total
        awaitingSettled := none }

/-- Replay of a `LaneReturned`. -/
def replayReturned (invocation : InvocationId) (outputHash : String) :
    Except ReplayViolation Mission :=
  if m.pendingLane ≠ some invocation then .error .laneAnswerWithoutCall
  else
    .ok { m with
      pendingLane := none
      callAccounting := none
      priorOutputs := m.priorOutputs ++ [outputHash]
      proof := { m.proof with returned := some invocation } }

/-- Replay of a `LaneOvertaken`. -/
def replayOvertaken (invocation : InvocationId) : Except ReplayViolation Mission :=
  if m.pendingLane ≠ some invocation then .error .laneAnswerWithoutCall
  else .ok { m with pendingLane := none, callAccounting := none }

/-- Replay of an `EffectDispatched`. -/
def replayDispatched (effect : Nat) (kind : EffectKind) : Except ReplayViolation Mission :=
  if ¬m.state.isWorking ∨ effect ≠ m.nextEffect ∨ m.unsettled.isSome ∨ m.openAction.isSome ∨
      m.settlement.isSome then
    .error .dispatchOutOfPlace
  else
    .ok { m with
      nextEffect := m.nextEffect + 1
      unsettled := some effect
      dispatchedKind := some kind
      unresolvedFile := if m.fileMode ∧ kind = .file then some effect else m.unresolvedFile
      dispatchedInPhase := true
      awaitingSettled := none }

/-- Replay of an `EffectSettled`. -/
def replaySettled (effect : Nat) (outcome : SettledOutcome) : Except ReplayViolation Mission :=
  if m.unsettled ≠ some effect then .error .settledNotDispatched
  else if outcome = .awaitingApproval then
    .ok { m with unsettled := none, awaitingSettled := some effect }
  else
    .ok { m with
      unsettled := none
      unresolvedFile := if m.unresolvedFile = some effect then none else m.unresolvedFile }

/-- Replay of an `ApprovalPending`. -/
def replayPending (effect : Nat) (pending : PendingAction) : Except ReplayViolation Mission :=
  if ¬m.state.mayWait ∨ m.awaitingSettled ≠ some effect ∨ m.openAction.isSome ∨
      m.settlement.isSome then
    .error .pendingOutOfPlace
  else .ok { m with openAction := some (effect, pending) }

/-- Replay of an `ApprovalClosed`. -/
def replayClosed (effect : Nat) : Except ReplayViolation Mission :=
  if m.fileMode ∧ (m.unresolvedFile.isSome ∨ m.terminalUncertain) then .error .settlementConflict
  else if m.openAction.map (·.1) ≠ some effect then .error .closureOfNoAction
  else .ok { m with openAction := none }

/-- Replay of a `SettlementStarted`. -/
def replaySettlementStarted (effect : Nat) (cause : SettleCause) : Except ReplayViolation Mission :=
  if m.state.isTerminal ∨ m.settlement.isSome then .error .settlementConflict
  else if m.unresolvedFile ≠ some effect then .error .settlementOutOfPlace
  else .ok { m with settlement := some (effect, cause), generation := m.generation + 1 }

/-- Replay of a `Held`. -/
def replayHeld (reason : HeldReason) : Except ReplayViolation Mission :=
  if m.state.isTerminal ∨ m.pendingLane.isSome ∨ m.unsettled.isSome ∨ m.dispatchedInPhase ∨
      m.settlement.isSome then
    .error .holdOutOfPlace
  else .ok { m with held := some reason, heldJournaled := true, mustHold := false }

/-- Replay of a `Resumed`. -/
def replayResumed : Except ReplayViolation Mission :=
  if m.held.isNone then .error .resumeNotHeld
  else if m.fileMode ∨ m.settlement.isSome then .error .settlementConflict
  else .ok { m with held := none, heldJournaled := false }

/-- Replay of the records of a drafted mission. The first arm is not reached: `replay` deals
with those records before. -/
def replayEvent (entry : Entry) : Except ReplayViolation Mission :=
  match entry.event with
  | .drafted _ | .sessionOpened | .sessionClosed | .fileModeSelected => .error .neverDrafted
  | .transition trigger => replayTransition m entry.seq trigger
  | .modelCallCharged invocation call => replayCharge m invocation call
  | .laneInvoked invocation role _ _ cap budget =>
    replayInvoked m entry.mission entry.seq invocation role cap budget
  | .laneReturned invocation outputHash => replayReturned m invocation outputHash
  | .laneOvertaken invocation => replayOvertaken m invocation
  | .effectDispatched effect kind _ => replayDispatched m effect kind
  | .effectSettled effect outcome => replaySettled m effect outcome
  | .approvalPending effect pending => replayPending m effect pending
  | .approvalClosed effect => replayClosed m effect
  | .consentRefused _ | .effectRefused _ _ => .ok m
  | .settlementStarted effect cause => replaySettlementStarted m effect cause
  | .held reason => replayHeld m reason
  | .resumed => replayResumed m
  | .deliverableRetained invocation effect content sha256 bytes =>
    PageProof.replayRetained m entry.mission { invocation, effect, content, sha256, bytes }
  | .publicationReceipt effect action sha256 bytes policyHash overtaken =>
    PageProof.replayReceipt m action { effect, sha256, bytes, policyHash, overtaken }
  | .verificationRecorded invocation effect _ checks =>
    PageProof.replayVerification m entry.mission invocation effect checks

/-- Replay of one entry of a drafted mission. -/
def replayMission (entry : Entry) : Except ReplayViolation Mission :=
  if entry.event = .fileModeSelected then replayFileMode m
  else if m.held.isSome ∧ ¬entry.event.whileHeld then .error .recordWhileHeld
  else if m.mustHold ∧ ¬m.beforeHold entry.event then .error .recordBeforeHold
  else replayEvent m entry

/-! ## Sessions and the journal -/

/-- What an opening after a session with no clean close makes of a mission: one that is
unfinished and not held must be held. -/
def Mission.mustHoldNow : Mission :=
  if ¬m.state.isTerminal ∧ m.held.isNone then { m with mustHold := true } else m

/-- Whether a mission refuses the session's clean close. -/
def Mission.refusesClose : Bool :=
  m.mustHold ||
    m.fileMode && (!m.state.isTerminal || m.unresolvedFile.isSome || m.terminalUncertain)

/-- `replay`: replay one verified entry. -/
def replay (r : Replayed) (entry : Entry) : Except ReplayViolation Replayed :=
  match entry.event with
  | .sessionOpened =>
    if entry.mission ≠ SESSION then .error .sessionRecordNamesMission
    else
      .ok { r with
        missions := r.missions.map fun _ m =>
          if r.session = .closed then m.invalidateCalls else m.invalidateCalls.mustHoldNow
        session := .opened }
  | .sessionClosed =>
    if entry.mission ≠ SESSION then .error .sessionRecordNamesMission
    else if r.session ≠ .opened then .error .closeOfNoSession
    else if r.missions.toList.any (·.2.refusesClose) then .error .closeWithUnheldMission
    else .ok { r with missions := r.missions.map fun _ m => m.invalidateCalls, session := .closed }
  | .drafted contract =>
    if r.session = .closed then .error .recordAfterClose
    else if entry.mission ≠ r.nextMission then .error .draftedOutOfOrder
    else if MAX_MISSIONS ≤ r.missions.size then .error .tooManyMissions
    else
      .ok { r with
        missions := r.missions.insert entry.mission { contractRef := contract }
        nextMission := entry.mission + 1 }
  | _ =>
    if r.session = .closed then .error .recordAfterClose
    else
      match r.missions[entry.mission]? with
      | none => .error .neverDrafted
      | some m => do
        let m ← replayMission m entry
        return { r with missions := r.missions.insert entry.mission m }

/-- A journal replayed from nothing, entry by entry. -/
def replayAll (entries : List Entry) : Except ReplayViolation Replayed := entries.foldlM replay {}

/-- The mission `id` as an accepted sequence of entries leaves it. -/
def missionAfter (entries : List Entry) (id : MissionId) : Option Mission :=
  match replayAll entries with
  | .ok r => r.missions[id]?
  | .error _ => none

/-- An entry as replay reads it: the hash chain was checked before. -/
def Entry.verified (seq : Nat) (mission : MissionId) (event : Event) : Entry :=
  { format := FORMAT, seq, prev := GENESIS, mission, event, hash := GENESIS }

/-- Whether replay accepts a sequence of entries. -/
def accepts (entries : List Entry) : Bool := (replayAll entries).isOk

/-- A mission that was drafted, submitted, consented to and started. -/
def startedJournal (contract : ContractRef) : List Entry :=
  [.verified 0 1 (.drafted contract),
    .verified 1 1 (.transition (.submit contract.contractHash)),
    .verified 2 1 (.transition (.consent contract.contractHash 5)),
    .verified 3 1 (.transition .start)]

end NexusOs.Mother
