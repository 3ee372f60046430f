import NexusOs.Lib.Fallible
import NexusOs.Mother.Replay

/-!
# What replay accepts

For each kind of record, when replay accepts it and what it makes of the mission: the checks in
the order the source makes them, turned into what holds of a mission whose record was accepted.
The other modules read replay through these and the field lemmas of `Mission.apply`.
-/

namespace NexusOs.Mother

open Fallible Option

variable {m m' : Mission} {entry : Entry}

/-- What an opening makes of a mission: after a clean close its charging ends, otherwise it must
also be held. -/
def Mission.reopened (m : Mission) (clean : Bool) : Mission :=
  if clean then m.invalidateCalls else m.invalidateCalls.mustHoldNow

/-! ## Fields of a moved mission -/

namespace Mission

variable (m : Mission) (trigger : Trigger) (target : MissionState) (monoNow : Nat)

/-- A field that the resolution of a waited File leaves alone. -/
theorem resolveWaited_frame {β : Type} (f : Mission → β)
    (hf : ∀ acks file, f { m.invalidateCalls with acks, unresolvedFile := file } = f m) :
    f (m.invalidateCalls.resolveWaited trigger) = f m := by
  unfold resolveWaited
  split
  · exact hf _ _
  · exact hf m.acks m.unresolvedFile

@[simp] theorem apply_state : (m.apply trigger target monoNow).state = target ∧
    (m.apply trigger target monoNow).awaitingSettled = none := ⟨rfl, rfl⟩

@[simp] theorem apply_generation :
    (m.apply trigger target monoNow).generation = m.generation + 1 := by
  have h := m.resolveWaited_frame trigger (·.generation) fun _ _ => rfl
  cases trigger <;> exact congrArg (· + 1) h

@[simp] theorem apply_contractRef :
    (m.apply trigger target monoNow).contractRef =
      match trigger with
      | .revise contract => contract
      | _ => m.contractRef := by
  have h := m.resolveWaited_frame trigger (·.contractRef) fun _ _ => rfl
  cases trigger <;> first | rfl | exact h

@[simp] theorem apply_consent :
    (m.apply trigger target monoNow).consent =
      match trigger with
      | .revise _ => none
      | _ => m.consent := by
  have h := m.resolveWaited_frame trigger (·.consent) fun _ _ => rfl
  cases trigger <;> first | rfl | exact h

@[simp] theorem apply_waiting :
    (m.apply trigger target monoNow).waiting =
      match trigger with
      | .awaitApproval effect rest rolesLeft =>
        some { phase := m.state, effect, restRef := rest, rest := none, rolesLeft }
      | .actionApproved _ _ | .approvalLapsed _ _ | .actionDenied _ | .settled _ _ _ _ => none
      | _ => m.waiting := by
  have hwaiting := m.resolveWaited_frame trigger (·.waiting) fun _ _ => rfl
  have hstate := m.resolveWaited_frame trigger (·.state) fun _ _ => rfl
  cases trigger with
  | awaitApproval effect rest rolesLeft =>
    exact congrArg (fun phase => some (Waiting.mk phase effect rest none rolesLeft)) hstate
  | _ => first | rfl | exact hwaiting

@[simp] theorem apply_unresolvedFile :
    (m.apply trigger target monoNow).unresolvedFile =
      if trigger.isSettled ∨ resolves trigger ∧ m.waitedFile.isSome then none
      else m.unresolvedFile := by
  have hwaited : m.invalidateCalls.waitedFile = m.waitedFile := rfl
  cases trigger <;> simp only [apply, resolveWaited, hwaited] <;> cases m.waitedFile <;> rfl

@[simp] theorem apply_held :
    (m.apply trigger target monoNow).held = (if target.isTerminal then none else m.held) ∧
    (m.apply trigger target monoNow).mustHold = if target.isTerminal then false else m.mustHold := by
  have hheld := m.resolveWaited_frame trigger (·.held) fun _ _ => rfl
  have hmust := m.resolveWaited_frame trigger (·.mustHold) fun _ _ => rfl
  cases trigger <;> exact ⟨congrArg (if target.isTerminal then none else ·) hheld,
    congrArg (if target.isTerminal then false else ·) hmust⟩

@[simp] theorem apply_pendingLane :
    (m.apply trigger target monoNow).pendingLane =
      (if trigger.isSettled then none else m.pendingLane) ∧
    (m.apply trigger target monoNow).unsettled =
      if trigger.isSettled then none else m.unsettled := by
  have hpending := m.resolveWaited_frame trigger (·.pendingLane) fun _ _ => rfl
  have hunsettled := m.resolveWaited_frame trigger (·.unsettled) fun _ _ => rfl
  cases trigger <;> first | exact ⟨rfl, rfl⟩ | exact ⟨hpending, hunsettled⟩

/-- The fields that no transition moves. -/
@[simp] theorem apply_kept :
    (m.apply trigger target monoNow).settlement = m.settlement ∧
    (m.apply trigger target monoNow).proof = m.proof ∧
    (m.apply trigger target monoNow).nextEffect = m.nextEffect ∧
    (m.apply trigger target monoNow).openAction = m.openAction ∧
    (m.apply trigger target monoNow).fileMode = m.fileMode := by
  have h {β : Type} (f : Mission → β) := m.resolveWaited_frame trigger f
  cases trigger <;> exact ⟨h (·.settlement) fun _ _ => rfl, h (·.proof) fun _ _ => rfl,
    h (·.nextEffect) fun _ _ => rfl, h (·.openAction) fun _ _ => rfl, h (·.fileMode) fun _ _ => rfl⟩

/-! What replay adds to `apply` touches the consent and the record of an end only. -/

attribute [simp] moved

end Mission

/-- The fields of a mission that only transitions move agree. -/
structure Mission.SameCourse (m m' : Mission) : Prop where
  state : m'.state = m.state
  contractRef : m'.contractRef = m.contractRef
  consent : m'.consent = m.consent
  waiting : m'.waiting = m.waiting

/-- A session record obliges only an unfinished mission to be held, and releases none. -/
def Mission.Obliged (m : Mission) (mustHold : Bool) : Prop :=
  mustHold = m.mustHold ∨ mustHold = true ∧ ¬m.state.isTerminal

/-- An opening changes a mission's charging and its obligation to be held only. -/
theorem Mission.reopened_eq (m : Mission) (clean : Bool) :
    ∃ mustHold, m.Obliged mustHold ∧
      m.reopened clean = { m with laneCalls := none, callAccounting := none, mustHold } := by
  unfold reopened mustHoldNow
  split
  · exact ⟨_, .inl rfl, rfl⟩
  split
  · rename_i hopen
    exact ⟨_, .inr ⟨rfl, hopen.1⟩, rfl⟩
  · exact ⟨_, .inl rfl, rfl⟩

variable {trigger : Trigger}

/-- While an effect is unsettled, a mission is only ended. -/
theorem isTerminal_of_whileUnsettled {s s' : MissionState}
    (h : transition s trigger = some s') (hwhile : trigger.whileUnsettled) : s'.isTerminal := by
  cases trigger with
  | stop => rw [(transition_stop.mp h).2]; rfl
  | block reason =>
    obtain ⟨-, h⟩ := ite_none_right_eq_some.mp h
    cases h
    rfl
  | settled effect action outcome ending =>
    obtain ⟨-, h⟩ := ite_none_right_eq_some.mp h
    cases ending <;> cases h <;> rfl
  | _ => cases hwhile

/-- A settlement ends the mission. -/
theorem isTerminal_of_isSettled {s s' : MissionState}
    (h : transition s trigger = some s') (hsettled : trigger.isSettled) : s'.isTerminal :=
  isTerminal_of_whileUnsettled h (by cases trigger <;> first | rfl | cases hsettled)

theorem triggerGuard_awaitApproval {effect : Nat} {rest : RestRef} {rolesLeft : List LaneRole} :
    triggerGuard m (.awaitApproval effect rest rolesLeft) = .ok () ↔
      m.awaitingSettled = some effect ∧ rest.count < MAX_EFFECTS_PER_CALL ∧
        rolesLeft <:+ phaseRoles m.state ∧ rolesLeft.length < (phaseRoles m.state).length := by
  simp only [triggerGuard, ite_error_eq_ok, not_or, not_not, not_le, and_true]

theorem triggerGuard_actionApproved {effect : Nat} {phase : MissionState} :
    triggerGuard m (.actionApproved effect phase) = .ok () ↔
      ∃ w, m.waiting = some w ∧ w.effect = effect ∧ w.phase = phase := by
  simp only [triggerGuard]
  cases m.waiting <;> simp

/-! ## One lemma for each record -/

theorem replayTransition_eq_ok {seq : Nat} :
    replayTransition m seq trigger = .ok m' ↔
      ∃ target, transition m.state trigger = some target ∧
        (m.unresolvedFile.isSome → trigger.endsUnsettledFile = false) ∧
        (m.settlement.isSome → trigger.isSettled) ∧
        (m.unsettled.isSome → trigger.whileUnsettled) ∧
        triggerGuard m trigger = .ok () ∧
        m' = m.moved trigger target seq := by
  unfold replayTransition
  cases transition m.state trigger with
  | none => simp
  | some target =>
    simp only [ite_error_eq_ok, bind_eq_ok, some.injEq, exists_eq_left', not_and,
      Bool.not_eq_true, Bool.not_eq_false, pure, Except.pure, Except.ok.injEq, Unique.exists_iff,
      eq_comm (a := m')]

/-- A record of a drafted mission, past the checks on held missions and on missions that must be
held. -/
theorem replayMission_eq_ok :
    replayMission m entry = .ok m' ↔
      entry.event = .fileModeSelected ∧ replayFileMode m = .ok m' ∨
      entry.event ≠ .fileModeSelected ∧ (m.held.isSome → entry.event.whileHeld) ∧
        (m.mustHold → m.beforeHold entry.event) ∧ replayEvent m entry = .ok m' := by
  unfold replayMission
  by_cases h : entry.event = .fileModeSelected
  · simp [h]
  · simp only [h, if_false, ite_error_eq_ok, not_and, not_not, false_and, false_or, ne_eq,
      not_false_eq_true, true_and]

/-- What replay makes of an accepted record of a mission, with what it checked of the mission. -/
inductive Records (m : Mission) (entry : Entry) : Mission → Prop where
  | fileMode : entry.event = .fileModeSelected → m.fileMode = false → m.state = .draft →
      m.generation = 0 → Records m entry { m with fileMode := true }
  | transition (trigger : Trigger) (target : MissionState) :
      entry.event = .transition trigger → transition m.state trigger = some target →
      (m.unresolvedFile.isSome → trigger.endsUnsettledFile = false) →
      (m.settlement.isSome → trigger.isSettled) → (m.unsettled.isSome → trigger.whileUnsettled) →
      triggerGuard m trigger = .ok () → Records m entry (m.moved trigger target entry.seq)
  | charged (invocation : InvocationId) (call : Nat) (account account' : CallAccounting)
      (total : Nat) :
      entry.event = .modelCallCharged invocation call →
      m.pendingLane = some invocation ∧ m.state.isWorking ∧ m.settlement = none →
      m.callAccounting = some account →
      account.charge invocation call m.modelCalls = .ok (account', total) →
      Records m entry { m with callAccounting := some account', modelCalls := total }
  | invoked (invocation : InvocationId) (role : LaneRole) (identitySha256 inputHash : String)
      (cap budget : Nat) (account : Option CallAccounting) :
      entry.event = .laneInvoked invocation role identitySha256 inputHash cap budget →
      m.settlement = none →
      m.state.isWorking ∧ m.state ≠ .explaining ∧ m.pendingLane = none ∧ m.openAction = none ∧
        invocation.mission = entry.mission ∧ invocation.seq = entry.seq →
      CallAccounting.reserved m.modelCalls invocation cap budget = .ok account →
      m.modelCalls + 1 < 2 ^ 32 →
      Records m entry { m with
        callAccounting := account
        declaredModelBudgets :=
          if 0 < cap then m.declaredModelBudgets ++ [budget] else m.declaredModelBudgets
        pendingLane := some invocation
        proof := { m.proof with returned := none, invoked := some role }
        modelCalls := m.modelCalls + 1
        awaitingSettled := none }
  | returned (invocation : InvocationId) (outputHash : String) :
      entry.event = .laneReturned invocation outputHash → m.pendingLane = some invocation →
      Records m entry { m with
        pendingLane := none
        callAccounting := none
        priorOutputs := m.priorOutputs ++ [outputHash]
        proof := { m.proof with returned := some invocation } }
  | overtaken (invocation : InvocationId) :
      entry.event = .laneOvertaken invocation → m.pendingLane = some invocation →
      Records m entry { m with pendingLane := none, callAccounting := none }
  | dispatched (effect : Nat) (kind : EffectKind) (requestHash : String) :
      entry.event = .effectDispatched effect kind requestHash →
      m.state.isWorking ∧ effect = m.nextEffect ∧ m.unsettled = none ∧ m.openAction = none ∧
        m.settlement = none →
      Records m entry { m with
        nextEffect := m.nextEffect + 1
        unsettled := some effect
        dispatchedKind := some kind
        unresolvedFile := if m.fileMode ∧ kind = .file then some effect else m.unresolvedFile
        dispatchedInPhase := true
        awaitingSettled := none }
  | awaiting (effect : Nat) :
      entry.event = .effectSettled effect .awaitingApproval → m.unsettled = some effect →
      Records m entry { m with unsettled := none, awaitingSettled := some effect }
  | settled (effect : Nat) (outcome : SettledOutcome) :
      entry.event = .effectSettled effect outcome → outcome ≠ .awaitingApproval →
      m.unsettled = some effect →
      Records m entry { m with
        unsettled := none
        unresolvedFile := if m.unresolvedFile = some effect then none else m.unresolvedFile }
  | pending (effect : Nat) (action : PendingAction) :
      entry.event = .approvalPending effect action →
      m.state.mayWait ∧ m.awaitingSettled = some effect ∧ m.openAction = none ∧
        m.settlement = none →
      Records m entry { m with openAction := some (effect, action) }
  | closed (effect : Nat) :
      entry.event = .approvalClosed effect →
      (m.fileMode → m.unresolvedFile = none ∧ m.terminalUncertain = false) →
      m.openAction.map (·.1) = some effect → Records m entry { m with openAction := none }
  | consentRefused (reason : ConsentRefusedReason) :
      entry.event = .consentRefused reason → Records m entry m
  | effectRefused (kind : EffectKind) (reason : MotherRefusal) :
      entry.event = .effectRefused kind reason → Records m entry m
  | settlementStarted (effect : Nat) (cause : SettleCause) :
      entry.event = .settlementStarted effect cause →
      m.state.isTerminal = false ∧ m.settlement = none → m.unresolvedFile = some effect →
      Records m entry { m with settlement := some (effect, cause), generation := m.generation + 1 }
  | held (reason : HeldReason) :
      entry.event = .held reason →
      m.state.isTerminal = false ∧ m.pendingLane = none ∧ m.unsettled = none ∧
        m.dispatchedInPhase = false ∧ m.settlement = none →
      Records m entry { m with held := some reason, heldJournaled := true, mustHold := false }
  | resumed :
      entry.event = .resumed → m.held.isSome → m.fileMode = false ∧ m.settlement = none →
      Records m entry { m with held := none, heldJournaled := false }
  | retained (retained : Retained) :
      entry.event = .deliverableRetained retained.invocation retained.effect retained.content
        retained.sha256 retained.bytes →
      m.proof.retained = none →
      m.state = .building ∧ m.pendingLane = none ∧ m.unsettled = none ∧ m.openAction = none ∧
        m.settlement = none ∧ retained.effect = m.nextEffect ∧
        retained.invocation.mission = entry.mission ∧
        m.proof.returned = some retained.invocation →
      Records m entry { m with proof := { m.proof with retained := some retained } }
  | receipt (action : PendingAction) (receipt : Recorded) (retained : Retained) :
      entry.event = .publicationReceipt receipt.effect action receipt.sha256 receipt.bytes
        receipt.policyHash receipt.overtaken →
      m.proof.retained = some retained ∧ retained.effect = receipt.effect →
      m.proof.receipt = none ∧ PageProof.linked m receipt.effect action receipt.overtaken →
      (¬(receipt.policyHash.isSome ∧ m.state.mayWait ∧ m.waiting.isNone ∧
        m.unresolvedFile.isNone) → PageProof.settling m receipt.effect receipt.overtaken) →
      Records m entry { m with
        proof := { m.proof with
          early := if m.openAction.isNone then some action else m.proof.early
          receipt := some receipt } }
  | verification (invocation : InvocationId) (effect : Nat) (reportDigest : String)
      (checks : List (String × String)) (receipt : Recorded) :
      entry.event = .verificationRecorded invocation effect reportDigest checks →
      m.proof.verified = none →
      m.proof.receipt = some receipt ∧ receipt.effect = effect ∧ receipt.policyHash.isSome ∧
        receipt.overtaken = false →
      m.state = .verifying ∧ m.pendingLane = none ∧ invocation.mission = entry.mission ∧
        m.proof.returned = some invocation ∧ m.proof.invoked = some .verifier →
      Records m entry { m with
        proof := { m.proof with
          verified := some (checks.all (·.2 == "pass")), checks := some checks } }

/-- An accepted record of a mission, past the checks on held missions and on missions that must
be held. -/
theorem records_of_replayEvent (h : replayEvent m entry = .ok m') : Records m entry m' := by
  unfold replayEvent at h
  -- The checks that an accepted record passed, and then what was made of the mission.
  cases hkind : entry.event <;> simp only [hkind] at h
  case transition trigger =>
    obtain ⟨target, htable, hfile, hsettlement, hunsettled, hguard, rfl⟩ :=
      replayTransition_eq_ok.mp h
    exact .transition trigger target hkind htable hfile hsettlement hunsettled hguard
  case modelCallCharged invocation call =>
    obtain ⟨hmission, h⟩ := ite_error_eq_ok.mp h
    split at h
    · cases h
    rename_i account haccount
    obtain ⟨⟨account', total⟩, hcharge, h⟩ := bind_eq_ok.mp h
    cases h
    exact .charged _ _ account account' total hkind (by simpa using hmission) haccount hcharge
  case laneInvoked =>
    obtain ⟨hsettlement, h⟩ := ite_error_eq_ok.mp h
    obtain ⟨hmission, h⟩ := ite_error_eq_ok.mp h
    obtain ⟨account, hreserved, h⟩ := bind_eq_ok.mp h
    split at h
    · cases h
    rename_i total htotal
    cases h
    obtain ⟨hfits, htotal⟩ := ite_none_right_eq_some.mp htotal
    obtain rfl := some.inj htotal
    exact .invoked _ _ _ _ _ _ account hkind (by simpa using hsettlement)
      (by simpa using hmission) hreserved hfits
  case laneReturned =>
    obtain ⟨hpending, h⟩ := ite_error_eq_ok.mp h
    cases h
    exact .returned _ _ hkind (not_not.mp hpending)
  case laneOvertaken =>
    obtain ⟨hpending, h⟩ := ite_error_eq_ok.mp h
    cases h
    exact .overtaken _ hkind (not_not.mp hpending)
  case effectDispatched =>
    obtain ⟨hmission, h⟩ := ite_error_eq_ok.mp h
    cases h
    exact .dispatched _ _ _ hkind (by simpa using hmission)
  case effectSettled effect outcome =>
    obtain ⟨hunsettled, h⟩ := ite_error_eq_ok.mp h
    split at h
    · rename_i houtcome
      cases h
      exact .awaiting effect (houtcome ▸ hkind) (not_not.mp hunsettled)
    · cases h
      exact .settled effect outcome hkind ‹_› (not_not.mp hunsettled)
  case approvalPending =>
    obtain ⟨hmission, h⟩ := ite_error_eq_ok.mp h
    cases h
    exact .pending _ _ hkind (by simpa using hmission)
  case approvalClosed =>
    obtain ⟨hfile, h⟩ := ite_error_eq_ok.mp h
    obtain ⟨hopen, h⟩ := ite_error_eq_ok.mp h
    cases h
    exact .closed _ hkind (by simpa using hfile) (not_not.mp hopen)
  case consentRefused =>
    cases h
    exact .consentRefused _ hkind
  case effectRefused =>
    cases h
    exact .effectRefused _ _ hkind
  case settlementStarted =>
    obtain ⟨hmission, h⟩ := ite_error_eq_ok.mp h
    obtain ⟨hfile, h⟩ := ite_error_eq_ok.mp h
    cases h
    exact .settlementStarted _ _ hkind (by simpa using hmission) (not_not.mp hfile)
  case held =>
    obtain ⟨hmission, h⟩ := ite_error_eq_ok.mp h
    cases h
    exact .held _ hkind (by simpa using hmission)
  case resumed =>
    obtain ⟨hheld, h⟩ := ite_error_eq_ok.mp h
    obtain ⟨hmission, h⟩ := ite_error_eq_ok.mp h
    cases h
    exact .resumed hkind (by simpa [isSome_iff_ne_none] using hheld) (by simpa using hmission)
  case deliverableRetained =>
    obtain ⟨hnone, h⟩ := ite_error_eq_ok.mp h
    obtain ⟨hmission, h⟩ := ite_error_eq_ok.mp h
    cases h
    exact .retained _ hkind (by simpa using hnone) (by simpa using hmission)
  case publicationReceipt =>
    obtain ⟨hretained, h⟩ := ite_error_eq_ok.mp h
    obtain ⟨hreceipt, h⟩ := ite_error_eq_ok.mp h
    obtain ⟨hclean, h⟩ := ite_error_eq_ok.mp h
    cases h
    cases hproof : m.proof.retained with
    | none => simp [hproof] at hretained
    | some retained =>
      exact .receipt _ _ retained hkind ⟨hproof, by simpa [hproof] using hretained⟩
        (by simpa using hreceipt) fun hnot => not_not.mp fun hsettling => hclean ⟨hnot, hsettling⟩
  case verificationRecorded =>
    obtain ⟨hnone, h⟩ := ite_error_eq_ok.mp h
    obtain ⟨hmission, h⟩ := ite_error_eq_ok.mp h
    cases h
    rw [not_or] at hmission
    cases hreceipt : m.proof.receipt with
    | none => simp [hreceipt] at hmission
    | some receipt =>
      simp only [hreceipt] at hmission
      exact .verification _ _ _ _ receipt hkind (by simpa using hnone)
        ⟨hreceipt, by simpa [and_assoc] using hmission.1⟩ (by simpa using hmission.2)
  all_goals cases h

section

variable (h : replayMission m entry = .ok m')

include h

/-- What an accepted record of a mission did. -/
theorem records_of_replayMission : Records m entry m' := by
  obtain ⟨hevent, h⟩ | ⟨-, -, -, h⟩ := replayMission_eq_ok.mp h
  · obtain ⟨hmission, h⟩ := ite_error_eq_ok.mp h
    cases h
    obtain ⟨hfile, hstate, hgeneration⟩ : m.fileMode = false ∧ m.state = .draft ∧
        m.generation = 0 := by simpa using hmission
    exact .fileMode hevent hfile hstate hgeneration
  · exact records_of_replayEvent h

/-- An accepted transition of a mission. -/
theorem replayTransition_of_replayMission {trigger : Trigger}
    (hevent : entry.event = .transition trigger) :
    replayTransition m entry.seq trigger = .ok m' := by
  obtain ⟨hfile, -⟩ | ⟨-, -, -, h⟩ := replayMission_eq_ok.mp h
  · simp [hevent] at hfile
  · simpa only [replayEvent, hevent] using h

/-- A record accepted while the mission is held. -/
theorem whileHeld_of_replayMission (hheld : m.held.isSome) :
    entry.event = .fileModeSelected ∨ entry.event.whileHeld := by
  obtain ⟨hevent, -⟩ | ⟨-, hguard, -⟩ := replayMission_eq_ok.mp h
  · exact .inl hevent
  · exact .inr (hguard hheld)

/-- A record accepted while the mission must be held. -/
theorem beforeHold_of_replayMission (hmust : m.mustHold) :
    entry.event = .fileModeSelected ∨ m.beforeHold entry.event := by
  obtain ⟨hevent, -⟩ | ⟨-, -, hguard, -⟩ := replayMission_eq_ok.mp h
  · exact .inl hevent
  · exact .inr (hguard hmust)

end

/-- Only a transition moves a mission. -/
theorem Records.sameCourse (h : Records m entry m')
    (hevent : ∀ trigger, entry.event ≠ .transition trigger) : m.SameCourse m' := by
  cases h with
  | transition trigger _ htransition => exact absurd htransition (hevent trigger)
  | _ => exact ⟨rfl, rfl, rfl, rfl⟩

end NexusOs.Mother
