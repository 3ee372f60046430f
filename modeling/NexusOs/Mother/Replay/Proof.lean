import NexusOs.Mother.Replay.Order

/-!
# A page mission passes on its proof

The proof of a page mission is a chain of records: the Builder's answer, the retained page, its
File sent, its action pending and approved, the publication's receipt, and the Verifier's call,
answer and checks. Replay links them by the effect, the action and the invocation, but not every
link is checked (`Mission.proofInOrder` are the checks it does not make); where each entry meets
them, a mission that passed has the whole chain before it.
-/

namespace NexusOs.Mother

open History Fallible Option

/-! ## The chain -/

section Chain

variable (id : MissionId)

variable (retained : Retained)

/-- An entry that retains the page `retained` of the mission. -/
def Entry.Retains (entry : Entry) : Prop :=
  entry.mission = id ∧ entry.event = .deliverableRetained retained.invocation retained.effect
    retained.content retained.sha256 retained.bytes

/-- An entry that sends an effect of the mission as a File. -/
def Entry.SendsFile (effect : Nat) (entry : Entry) : Prop :=
  entry.mission = id ∧ ∃ requestHash, entry.event = .effectDispatched effect .file requestHash

/-- An entry that records the action an effect waits on. -/
def Entry.Pends (effect : Nat) (action : PendingAction) (entry : Entry) : Prop :=
  entry.mission = id ∧ entry.event = .approvalPending effect action

/-- An entry that records a clean receipt naming `action`: with a policy, not overtaken. -/
def Entry.ReceiptsCleanly (effect : Nat) (action : PendingAction) (entry : Entry) : Prop :=
  entry.mission = id ∧ ∃ sha256 bytes policyHash,
    entry.event = .publicationReceipt effect action sha256 bytes (some policyHash) false

/-- An entry that records the checks of an effect's page, all passed. -/
def Entry.Passes (invocation : InvocationId) (effect : Nat) (entry : Entry) : Prop :=
  entry.mission = id ∧ ∃ reportDigest checks,
    entry.event = .verificationRecorded invocation effect reportDigest checks ∧
      ∀ check ∈ checks, check.2 = "pass"

/-- The Builder's call, its answer and the page retained from it. -/
def retainedChain : List (Entry → Prop) :=
  [Entry.Calls id retained.invocation .builder, Entry.Returns id retained.invocation,
    Entry.Retains id retained]

/-- The chain up to the File sent. -/
def sentChain : List (Entry → Prop) :=
  retainedChain id retained ++ [Entry.SendsFile id retained.effect]

/-- The chain up to its pending action. -/
def pendedChain (action : PendingAction) : List (Entry → Prop) :=
  sentChain id retained ++ [Entry.Pends id retained.effect action]

/-- The chain up to the Owner's approval. -/
def approvedChain (action : PendingAction) : List (Entry → Prop) :=
  pendedChain id retained action ++ [Entry.Approves id retained.effect]

/-- The chain up to the receipt. -/
def receivedChain (action : PendingAction) : List (Entry → Prop) :=
  approvedChain id retained action ++ [Entry.ReceiptsCleanly id retained.effect action]

/-- The chain up to the Verifier's call. -/
def calledChain (action : PendingAction) (verifier : InvocationId) : List (Entry → Prop) :=
  receivedChain id retained action ++ [Entry.Calls id verifier .verifier]

/-- The chain up to the Verifier's answer. -/
def answeredChain (action : PendingAction) (verifier : InvocationId) : List (Entry → Prop) :=
  calledChain id retained action verifier ++ [Entry.Returns id verifier]

/-- The whole chain: the Verifier's checks of the page, all passed. -/
def provenChain (action : PendingAction) (verifier : InvocationId) : List (Entry → Prop) :=
  answeredChain id retained action verifier ++ [Entry.Passes id verifier retained.effect]

variable {retained}

end Chain

/-- The checks of the proof's chain that replay does not make, on the mission before a record: the
page is the Builder's, it is sent as a File, its phase is not completed and no receipt recorded
cleanly while it is still to be waited on, and the Verifier is called after its receipt. -/
def Mission.proofInOrder (m : Mission) : Event → Bool
  | .deliverableRetained _ _ _ _ _ => m.proof.invoked == some .builder
  | .effectDispatched effect kind _ =>
    m.proof.retained.all fun retained => retained.effect != effect || kind == .file
  | .transition .phaseDone =>
    m.proof.retained.all fun retained => m.awaitingSettled != some retained.effect
  | .publicationReceipt effect _ _ _ _ overtaken => overtaken || m.awaitingSettled != some effect
  | .laneInvoked _ role _ _ _ _ =>
    role != .verifier || m.proof.retained.isNone || m.proof.receipt.isSome
  | _ => true

/-- Every entry of a drafted mission meets the checks of the proof's chain. -/
abbrev ProofInOrder : List Entry → Prop := EachEntry fun _ m entry => m.proofInOrder entry.event

/-! ## What the journal says of a mission's proof -/

section History

variable {id : MissionId} {before : List Entry} {entry : Entry} {m m' : Mission} {r : Replayed}
  {retained : Retained} {action : PendingAction}

/-- The effects a mission knows were sent. -/
structure EffectNumbers (m : Mission) : Prop where
  unsettled : ∀ effect, m.unsettled = some effect → effect < m.nextEffect
  awaiting : ∀ effect, m.awaitingSettled = some effect → effect < m.nextEffect
  opened : ∀ effect action, m.openAction = some (effect, action) → effect < m.nextEffect

theorem EffectNumbers.step (h : EffectNumbers m) (hrecord : Records m entry m') :
    EffectNumbers m' := by
  cases hrecord with
  | transition trigger target =>
    refine ⟨fun effect hsome => ?_, by simp, by simpa using h.opened⟩
    simp only [Mission.moved, Mission.apply_pendingLane] at hsome
    split at hsome
    · cases hsome
    · simpa using h.unsettled effect hsome
  | invoked => exact ⟨h.unsettled, by simp, h.opened⟩
  | dispatched effect _ _ _ hmission =>
    refine ⟨?_, by simp, by simp [hmission.2.2.2.1]⟩
    simp [hmission.2.1]
  | awaiting effect _ hunsettled => exact ⟨by simp, by simpa using h.unsettled effect hunsettled,
    h.opened⟩
  | settled => exact ⟨by simp, h.awaiting, h.opened⟩
  | pending effect action _ hmission =>
    exact ⟨h.unsettled, h.awaiting, by simpa using h.awaiting effect hmission.2.1⟩
  | closed => exact ⟨h.unsettled, h.awaiting, by simp⟩
  | _ => exact ⟨h.unsettled, h.awaiting, h.opened⟩

variable {entries : List Entry}

theorem effectNumbers (h : replayAll entries = .ok r) (hm : r.missions[id]? = some m) :
    EffectNumbers m := by
  refine mission_invariant ?_ ?_ EffectNumbers.step h hm
  · intro contract
    exact ⟨by simp, by simp, by simp⟩
  · intro m mustHold hm _
    exact ⟨hm.unsettled, hm.awaiting, hm.opened⟩

/-- A receipt that a verification may rest on. -/
def Recorded.Clean (receipt : Recorded) : Prop :=
  receipt.policyHash.isSome ∧ receipt.overtaken = false

/-- Where the Owner's approval of the retained page's action stands. -/
def ApprovalStands (id : MissionId) (before : List Entry) (m : Mission) (retained : Retained)
    (action : PendingAction) : Prop :=
  InTurn (approvedChain id retained action) before ∨ m.awaitingSettled = some retained.effect ∨
    (m.state = .awaitingApproval ∧ ∃ w, m.waiting = some w ∧ w.effect = retained.effect) ∨
    m.state = .explaining ∨ m.state.isTerminal

/-- What the journal says of a mission's lanes and of its proof. -/
structure ProofHistory (id : MissionId) (before : List Entry) (m : Mission) : Prop where
  called : ∀ invocation role, m.pendingLane = some invocation → m.proof.invoked = some role →
    InTurn [Entry.Calls id invocation role] before
  answered : ∀ invocation role, m.proof.returned = some invocation →
    m.proof.invoked = some role →
    InTurn [Entry.Calls id invocation role, Entry.Returns id invocation] before
  retained : ∀ retained, m.proof.retained = some retained →
    InTurn (retainedChain id retained) before ∧ retained.effect ≤ m.nextEffect
  sent : ∀ retained, m.proof.retained = some retained → retained.effect < m.nextEffect →
    InTurn (sentChain id retained) before
  pended : ∀ retained action, m.proof.retained = some retained →
    m.openAction = some (retained.effect, action) →
    InTurn (pendedChain id retained action) before ∧ ApprovalStands id before m retained action
  received : ∀ receipt, m.proof.receipt = some receipt →
    ∃ retained, m.proof.retained = some retained ∧ receipt.effect = retained.effect ∧
      (receipt.Clean → ∃ action, InTurn (receivedChain id retained action) before)
  verifier : ∀ retained, m.proof.retained = some retained → m.proof.invoked = some .verifier →
    ∃ receipt, m.proof.receipt = some receipt ∧ (receipt.Clean → ∃ action,
      (∀ verifier, m.pendingLane = some verifier →
        InTurn (calledChain id retained action verifier) before) ∧
      ∀ verifier, m.proof.returned = some verifier →
        InTurn (answeredChain id retained action verifier) before)
  verified : ∀ passed, m.proof.verified = some passed → m.proof.receipt.isSome ∧
    ∀ retained, m.proof.retained = some retained → passed → ∃ action verifier,
      InTurn (provenChain id retained action verifier) before

theorem ApprovalStands.frame (h : ApprovalStands id before m retained action)
    (hawaiting : m.awaitingSettled = some retained.effect →
      m'.awaitingSettled = some retained.effect)
    (hstate : m'.state = m.state) (hwaiting : m'.waiting = m.waiting) :
    ApprovalStands id (before ++ [entry]) m' retained action := by
  rw [ApprovalStands, hstate, hwaiting]
  exact h.imp .snoc (.imp_left hawaiting)

/-- An entry that leaves the mission's lanes and proof alone. -/
theorem ProofHistory.frame (h : ProofHistory id before m)
    (hpending : ∀ invocation, m'.pendingLane = some invocation → m.pendingLane = some invocation)
    (hproof : m'.proof = m.proof) (hnext : m'.nextEffect = m.nextEffect)
    (hopen : m'.openAction = m.openAction)
    (hstands : ∀ retained action, m.proof.retained = some retained →
      m.openAction = some (retained.effect, action) → ApprovalStands id before m retained action →
      ApprovalStands id (before ++ [entry]) m' retained action) :
    ProofHistory id (before ++ [entry]) m' := by
  constructor <;> simp only [hproof, hnext, hopen]
  case called => exact fun _ role hcall hrole => (h.called _ role (hpending _ hcall) hrole).snoc
  case answered => exact fun _ role hreturn hrole => (h.answered _ role hreturn hrole).snoc
  case retained => exact fun _ hretained => (h.retained _ hretained).imp_left .snoc
  case sent => exact fun _ hretained hsent => (h.sent _ hretained hsent).snoc
  case pended =>
    exact fun _ _ hretained haction =>
      (h.pended _ _ hretained haction).imp .snoc (hstands _ _ hretained haction)
  case received =>
    intro receipt hreceipt
    obtain ⟨retained, hretained, heffect, hclean⟩ := h.received receipt hreceipt
    exact ⟨retained, hretained, heffect, fun hc => (hclean hc).imp fun _ => .snoc⟩
  case verifier =>
    intro retained hretained hrole
    obtain ⟨receipt, hreceipt, hclean⟩ := h.verifier retained hretained hrole
    refine ⟨receipt, hreceipt, fun hc => ?_⟩
    obtain ⟨action, hcalled, hanswered⟩ := hclean hc
    exact ⟨action, fun verifier hv => (hcalled verifier (hpending _ hv)).snoc,
      fun verifier hv => (hanswered verifier hv).snoc⟩
  case verified =>
    intro passed hverified
    obtain ⟨hreceipt, hchain⟩ := h.verified passed hverified
    refine ⟨hreceipt, fun retained hretained hpassed => ?_⟩
    obtain ⟨action, verifier, hproven⟩ := hchain retained hretained hpassed
    exact ⟨action, verifier, hproven.snoc⟩

/-- Where the approval stands after a transition. -/
theorem ApprovalStands.moved {trigger : Trigger} {target : MissionState}
    (h : ApprovalStands id before m retained action) (hphase : EffectPhase m)
    (hid : entry.mission = id) (hevent : entry.event = .transition trigger)
    (htable : transition m.state trigger = some target) (hguard : triggerGuard m trigger = .ok ())
    (hretained : m.proof.retained = some retained)
    (hpended : InTurn (pendedChain id retained action) before)
    (horder : m.proofInOrder entry.event) :
    ApprovalStands id (before ++ [entry]) (m.moved trigger target entry.seq) retained action := by
  have hended (h : target.isTerminal) :
      ApprovalStands id (before ++ [entry]) (m.moved trigger target entry.seq) retained action :=
    .inr (.inr (.inr (.inr h)))
  obtain happroved | hawaiting | ⟨hstate, w, hw, heffect⟩ | hstate | hterminal := h
  · exact .inl happroved.snoc
  · obtain hworking | hterminal := hphase.awaiting (by simp [hawaiting])
    swap
    · simp [transition_of_isTerminal hterminal] at htable
    obtain rfl | rfl | ⟨effect, rest, rolesLeft, rfl⟩ | h := transition_of_isWorking hworking htable
    · simp [hevent, Mission.proofInOrder, hretained, hawaiting] at horder
    · obtain ⟨-, htarget⟩ := ite_none_right_eq_some.mp htable
      exact .inr (.inr (.inr (.inl (some.inj htarget).symm)))
    · obtain ⟨hsettled, -⟩ := triggerGuard_awaitApproval.mp hguard
      obtain rfl := some.inj (hawaiting.symm.trans hsettled)
      obtain ⟨-, htarget⟩ := ite_none_right_eq_some.mp htable
      exact .inr (.inr (.inl ⟨(some.inj htarget).symm, _, m.apply_waiting _ target 0, rfl⟩))
    · exact hended h
  · rw [hstate] at htable
    obtain ⟨effect, phase, rfl⟩ | h := transition_awaitingApproval htable
    · obtain ⟨w', hw', rfl, -⟩ := triggerGuard_actionApproved.mp hguard
      obtain rfl := some.inj (hw.symm.trans hw')
      exact .inl (hpended.next ⟨hid, phase, heffect ▸ hevent⟩)
    · exact hended h
  · rw [hstate] at htable
    obtain rfl | rfl | ⟨effect, rest, rolesLeft, rfl⟩ | h := transition_of_isWorking rfl htable
    · cases htable
      exact hended rfl
    · cases htable
    · cases htable
    · exact hended h
  · simp [transition_of_isTerminal hterminal] at htable

namespace ProofHistory

variable {invocation : InvocationId} {account : Option CallAccounting} {effect : Nat}

variable (h : ProofHistory id before m)

include h

/-- The chain so far, with one more entry after it. -/
theorem snoc (entry : Entry) : ProofHistory id (before ++ [entry]) m :=
  h.frame (fun _ h => h) rfl rfl rfl fun _ _ _ _ hstand => hstand.frame (fun h => h) rfl rfl

variable (hid : entry.mission = id)

include hid

/-- A lane is called: the Verifier's only after the receipt. -/
theorem invoked {role : LaneRole} {identity input : String} {cap budget total : Nat}
    {budgets : List Nat}
    (hevent : entry.event = .laneInvoked invocation role identity input cap budget)
    (hopen : m.openAction = none) (horder : m.proofInOrder entry.event) :
    ProofHistory id (before ++ [entry]) { m with
      callAccounting := account
      declaredModelBudgets := budgets
      pendingLane := some invocation
      proof := { m.proof with returned := none, invoked := some role }
      modelCalls := total
      awaitingSettled := none } := by
  have hcall : entry.Calls id invocation role := ⟨hid, _, _, _, _, hevent⟩
  exact { h.snoc entry with
    called := by
      intro invocation' role' hpending hrole
      obtain rfl : invocation = invocation' := some.inj hpending
      obtain rfl : role = role' := some.inj hrole
      exact ⟨before, entry, [], rfl, hcall, trivial⟩
    answered := nofun
    pended := fun _ _ _ haction => by simp [hopen] at haction
    verifier := by
      intro retained hretained hrole
      obtain rfl : role = .verifier := some.inj hrole
      have hreceipt : m.proof.receipt.isSome := by
        simpa [hevent, Mission.proofInOrder, show m.proof.retained = some retained from hretained]
          using horder
      obtain ⟨receipt, hreceipt⟩ := isSome_iff_exists.mp hreceipt
      obtain ⟨retained', hretained', -, hclean⟩ := h.received receipt hreceipt
      obtain rfl : retained = retained' := some.inj (hretained.symm.trans hretained')
      refine ⟨receipt, hreceipt, fun hc => ?_⟩
      obtain ⟨action, hchain⟩ := hclean hc
      refine ⟨action, fun verifier hpending => ?_, nofun⟩
      obtain rfl : invocation = verifier := some.inj hpending
      exact hchain.next hcall }

/-- A lane answers. -/
theorem returns {outputHash : String} {outputs : List String}
    (hevent : entry.event = .laneReturned invocation outputHash)
    (hpending : m.pendingLane = some invocation) :
    ProofHistory id (before ++ [entry]) { m with
      pendingLane := none
      callAccounting := account
      priorOutputs := outputs
      proof := { m.proof with returned := some invocation } } := by
  have hreturn : entry.Returns id invocation := ⟨hid, outputHash, hevent⟩
  exact { h.snoc entry with
    called := nofun
    answered := by
      intro invocation' role hreturned hrole
      obtain rfl : invocation = invocation' := some.inj hreturned
      exact (h.called invocation role hpending hrole).next hreturn
    verifier := by
      intro retained hretained hrole
      obtain ⟨receipt, hreceipt, hclean⟩ := h.verifier retained hretained hrole
      refine ⟨receipt, hreceipt, fun hc => ?_⟩
      obtain ⟨action, hcalled, -⟩ := hclean hc
      refine ⟨action, nofun, fun verifier hreturned => ?_⟩
      obtain rfl : invocation = verifier := some.inj hreturned
      exact (hcalled invocation hpending).next hreturn }

/-- An effect is sent: the retained page's as a File. -/
theorem dispatched {kind : EffectKind} {requestHash : String} {file : Option Nat}
    (hevent : entry.event = .effectDispatched effect kind requestHash)
    (heffect : effect = m.nextEffect) (hopen : m.openAction = none)
    (horder : m.proofInOrder entry.event) :
    ProofHistory id (before ++ [entry]) { m with
      nextEffect := m.nextEffect + 1
      unsettled := some effect
      dispatchedKind := some kind
      unresolvedFile := file
      dispatchedInPhase := true
      awaitingSettled := none } := by
  have hsame := h.snoc entry
  exact { hsame with
    retained := by
      intro retained hretained
      obtain ⟨hchain, hle⟩ := hsame.retained retained hretained
      exact ⟨hchain, Nat.le_succ_of_le hle⟩
    sent := by
      intro retained hretained hlt
      obtain ⟨hchain, hle⟩ := h.retained retained hretained
      obtain hsent | hnow := Nat.lt_or_eq_of_le hle
      · exact (h.sent retained hretained hsent).snoc
      -- The retained page's own effect is sent now.
      have hnow : effect = retained.effect := heffect.trans hnow.symm
      have hkind : kind = .file := by
        simpa [hevent, Mission.proofInOrder, hnow,
          show m.proof.retained = some retained from hretained] using horder
      exact hchain.next ⟨hid, requestHash, hnow ▸ hkind ▸ hevent⟩
    pended := fun _ _ _ haction => by simp [hopen] at haction }

/-- The action of an effect that is to wait is recorded. -/
theorem pending (hnumbers : EffectNumbers m) (hevent : entry.event = .approvalPending effect action)
    (hawaiting : m.awaitingSettled = some effect) :
    ProofHistory id (before ++ [entry]) { m with openAction := some (effect, action) } := by
  exact { h.snoc entry with
    pended := by
      intro retained action' hretained haction
      obtain ⟨rfl, rfl⟩ : effect = retained.effect ∧ action = action' := by simpa using haction
      have hsent := h.sent retained hretained (hnumbers.awaiting _ hawaiting)
      exact ⟨hsent.next ⟨hid, hevent⟩, .inr (.inl hawaiting)⟩ }

/-- The Builder's page is retained. -/
theorem retains (hevent : entry.event =
      .deliverableRetained retained.invocation retained.effect retained.content retained.sha256
      retained.bytes) (hnone : m.proof.retained = none) (hopen : m.openAction = none)
    (heffect : retained.effect = m.nextEffect)
    (hreturned : m.proof.returned = some retained.invocation)
    (horder : m.proofInOrder entry.event) :
    ProofHistory id (before ++ [entry])
      { m with proof := { m.proof with retained := some retained } } := by
  have hbuilder : m.proof.invoked = some .builder := by
    simpa [hevent, Mission.proofInOrder] using horder
  have hreceipt : m.proof.receipt = none := by
    by_contra hsome
    obtain ⟨receipt, hreceipt⟩ := ne_none_iff_exists'.mp hsome
    obtain ⟨_, hretained, -⟩ := h.received receipt hreceipt
    simp [hnone] at hretained
  exact { h.snoc entry with
    retained := by
      intro retained' hretained
      obtain rfl : retained = retained' := some.inj hretained
      exact ⟨(h.answered _ _ hreturned hbuilder).next ⟨hid, hevent⟩, heffect.le⟩
    sent := by
      intro retained' hretained hlt
      obtain rfl : retained = retained' := some.inj hretained
      exact absurd hlt (by simp [heffect])
    pended := fun _ _ _ haction => by simp [hopen] at haction
    received := fun _ hsome => by simp [hreceipt] at hsome
    verifier := fun _ _ hrole => by simp [hbuilder] at hrole
    verified := fun passed hverified => by simpa [hreceipt] using (h.verified passed hverified).1 }

variable {receipt : Recorded}

/-- The receipt of the publication is recorded: cleanly only after the approval. -/
theorem receives {early : Option PendingAction} (hevent : entry.event =
      .publicationReceipt receipt.effect action receipt.sha256 receipt.bytes receipt.policyHash
      receipt.overtaken)
    (hretained : m.proof.retained = some retained ∧ retained.effect = receipt.effect)
    (hnone : m.proof.receipt = none ∧ PageProof.linked m receipt.effect action receipt.overtaken)
    (hclean : ¬(receipt.policyHash.isSome ∧ m.state.mayWait ∧ m.waiting.isNone ∧
      m.unresolvedFile.isNone) → PageProof.settling m receipt.effect receipt.overtaken)
    (horder : m.proofInOrder entry.event) :
    ProofHistory id (before ++ [entry])
      { m with proof := { m.proof with early := early, receipt := some receipt } } := by
  obtain ⟨hretained, heffect⟩ := hretained
  obtain ⟨hnone, hlinked⟩ := hnone
  exact { h.snoc entry with
    received := by
      intro receipt' hreceipt
      obtain rfl : receipt = receipt' := some.inj hreceipt
      refine ⟨retained, hretained, heffect.symm, fun ⟨hpolicy, hovertaken⟩ => ?_⟩
      obtain ⟨policyHash, hpolicyHash⟩ := isSome_iff_exists.mp hpolicy
      have hopen : m.openAction = some (retained.effect, action) := by
        unfold PageProof.linked at hlinked
        split at hlinked
        · rename_i opened hopened
          rw [hopened, beq_iff_eq.mp hlinked, heffect]
        · simp [PageProof.settling, hovertaken] at hlinked
      have hwait : m.state.mayWait := by
        by_contra hwait
        simpa [PageProof.settling, hovertaken] using hclean fun hc => hwait hc.2.1
      obtain ⟨-, hstands⟩ := h.pended retained action hretained hopen
      have happroved : InTurn (approvedChain id retained action) before := by
        obtain happroved | hawaiting | ⟨hstate, -⟩ | hstate | hended := hstands
        · exact happroved
        · simp [hevent, Mission.proofInOrder, hovertaken, hawaiting, heffect] at horder
        · simp [hstate, MissionState.mayWait] at hwait
        · simp [hstate, MissionState.mayWait] at hwait
        · have hworking := MissionState.isWorking_of_mayWait hwait
          simp [MissionState.not_isTerminal_of_isWorking hworking] at hended
      refine ⟨action, happroved.next ⟨hid, receipt.sha256, receipt.bytes, policyHash, ?_⟩⟩
      rw [hevent, heffect, hpolicyHash, hovertaken]
    verifier := by
      intro _ hsome hrole
      obtain ⟨_, hreceipt, -⟩ := h.verifier _ hsome hrole
      simp [hnone] at hreceipt
    verified := by
      intro passed hverified
      simpa [hnone] using (h.verified passed hverified).1 }

/-- The Verifier's checks are recorded. -/
theorem verifies {reportDigest : String} {checks : List (String × String)}
    {kept : Option (List (String × String))}
    (hevent : entry.event = .verificationRecorded invocation effect reportDigest checks)
    (hreceipt : m.proof.receipt = some receipt ∧ receipt.effect = effect ∧
      receipt.policyHash.isSome ∧ receipt.overtaken = false)
    (hreturned : m.proof.returned = some invocation) (hinvoked : m.proof.invoked = some .verifier) :
    ProofHistory id (before ++ [entry]) { m with
      proof := { m.proof with verified := some (checks.all (·.2 == "pass")), checks :=
        kept } } := by
  obtain ⟨hreceipt, rfl, hpolicy, hovertaken⟩ := hreceipt
  exact { h.snoc entry with
    verified := by
      intro passed hverified
      refine ⟨by simp [hreceipt], fun retained hretained hpassed => ?_⟩
      obtain rfl : _ = passed := some.inj hverified
      obtain ⟨receipt', hreceipt', hchain⟩ := h.verifier retained hretained hinvoked
      obtain rfl : receipt = receipt' := some.inj (hreceipt.symm.trans hreceipt')
      obtain ⟨retained', hretained', heffect, -⟩ := h.received receipt hreceipt
      obtain rfl : retained = retained' := some.inj (hretained.symm.trans hretained')
      obtain ⟨action, -, hanswered⟩ := hchain ⟨hpolicy, hovertaken⟩
      refine ⟨action, invocation, (hanswered invocation hreturned).next ?_⟩
      exact ⟨hid, reportDigest, checks, heffect ▸ hevent, by simpa using hpassed⟩ }

/-- Every record of the mission that meets the checks of the chain keeps the history. -/
theorem step (hphase : EffectPhase m) (hnumbers : EffectNumbers m) (hrecord : Records m entry m')
    (horder : m.proofInOrder entry.event) : ProofHistory id (before ++ [entry]) m' := by
  cases hrecord with
  | transition trigger target hevent htable _ _ _ hguard =>
    refine h.frame (fun invocation hpending => ?_) (by simp) (by simp) (by simp) ?_
    · simp only [Mission.moved, Mission.apply_pendingLane] at hpending
      split at hpending
      · cases hpending
      · exact hpending
    · intro retained action hretained haction hstands
      obtain ⟨hpended, -⟩ := h.pended retained action hretained haction
      exact hstands.moved hphase hid hevent htable hguard hretained hpended horder
  | invoked _ _ _ _ _ _ _ hevent _ hmission => exact h.invoked hid hevent hmission.2.2.2.1 horder
  | returned _ _ hevent hpending => exact h.returns hid hevent hpending
  | overtaken =>
    exact h.frame (by simp) rfl rfl rfl fun _ _ _ _ hstands => hstands.frame (fun h => h) rfl rfl
  | dispatched _ _ _ hevent hmission =>
    exact h.dispatched hid hevent hmission.2.1 hmission.2.2.2.1 horder
  | awaiting effect _ hunsettled =>
    have hnone := (hphase.unsettled (by simp [hunsettled])).2
    exact h.frame (fun _ h => h) rfl rfl rfl fun _ _ _ _ hstands =>
      hstands.frame (by simp [hnone]) rfl rfl
  | pending _ _ hevent hmission => exact h.pending hid hnumbers hevent hmission.2.1
  | closed => exact { h.snoc entry with pended := by simp }
  | retained _ hevent hnone hmission =>
    exact h.retains hid hevent hnone hmission.2.2.2.1 hmission.2.2.2.2.2.1
      hmission.2.2.2.2.2.2.2 horder
  | receipt _ _ _ hevent hretained hnone hclean =>
    exact h.receives hid hevent hretained hnone hclean horder
  | verification _ _ _ _ _ hevent _ hreceipt hmission =>
    exact h.verifies hid hevent hreceipt hmission.2.2.2.1 hmission.2.2.2.2
  | _ => exact { h.snoc entry with }

end ProofHistory

/-- Every mission of an accepted journal whose entries meet the checks of the chain. -/
theorem proofHistory (horder : ProofInOrder entries) (h : replayAll entries = .ok r)
    (hm : r.missions[id]? = some m) : ProofHistory id entries m := by
  refine mission_induction ?_ ?_ ?_ ?_ h hm
  · intro before entry contract _ _ _
    constructor <;> simp
  · intro before entry m mustHold hm _ _
    exact { hm.snoc entry with }
  · rintro before entry after r m m' rfl hr hbefore hm rfl hreplay
    exact hm.step rfl (effectPhase hr hbefore) (effectNumbers hr hbefore)
      (records_of_replayMission hreplay) (horder.mission hr hbefore)
  · intro before entry m hm _
    exact hm.snoc entry

/-- Whether an entry is a receipt of the mission. -/
def Entry.isReceipt (id : MissionId) (entry : Entry) : Bool :=
  entry.mission == id &&
    match entry.event with
    | .publicationReceipt _ _ _ _ _ _ => true
    | _ => false

/-- A mission has one receipt at most. -/
theorem countP_isReceipt (h : replayAll entries = .ok r) (hm : r.missions[id]? = some m) :
    entries.countP (Entry.isReceipt id) = if m.proof.receipt.isSome then 1 else 0 := by
  refine mission_induction (P := fun entries m =>
    entries.countP (Entry.isReceipt id) = if m.proof.receipt.isSome then 1 else 0) ?_ ?_ ?_ ?_ h hm
  · intro before entry contract hnew hid hevent
    have hbefore : before.countP (Entry.isReceipt id) = 0 := by
      simp only [List.countP_eq_zero, Entry.isReceipt, Bool.and_eq_true, beq_iff_eq, not_and]
      exact fun e he hown => absurd hown (hnew e he)
    simp [hbefore, Entry.isReceipt, hevent]
  · rintro before entry m mustHold hm - (hevent | hevent) <;>
      simpa [Entry.isReceipt, hevent] using hm
  · rintro before entry after r m m' - - - hm rfl hreplay
    cases records_of_replayMission hreplay with
    | transition _ _ hevent => simpa [Entry.isReceipt, hevent] using hm
    | receipt _ _ _ hevent _ hnone => simp_all [Entry.isReceipt]
    | _ => simp [Entry.isReceipt, *]
  · intro before entry m hm hother
    simpa [Entry.isReceipt, hother] using hm

/-- A retained page stays. -/
theorem retained_since {before later : List Entry} (hentry : entry.Retains id retained)
    (haccepts : accepts (before ++ entry :: later)) :
    ∃ m, missionAfter (before ++ entry :: later) id = some m ∧
      m.proof.retained = some retained := by
  obtain ⟨hid, hevent⟩ := hentry
  obtain ⟨r, r', hr, hstep, hr'⟩ := accepts_append_cons haccepts
  obtain ⟨m, m', hm, hreplay, rfl⟩ := replay_own hstep (by simp [hevent, Event.isOwn])
  have hretained : m'.proof.retained = some retained := by
    cases records_of_replayMission hreplay with
    | retained other hother =>
      cases other
      cases retained
      simp_all
    | _ => simp_all
  have hafter : missionAfter (before ++ [entry]) id = some m' :=
    missionAfter_eq_some.mpr ⟨_, hr', by simp [hid]⟩
  have haccepts : accepts ((before ++ [entry]) ++ later) := by simpa using haccepts
  obtain ⟨last, hlast, hkept⟩ := kept_since (f := fun m => m.proof.retained) hafter haccepts
    (fun _ _ => rfl) (by
      intro n entry n' _ _ hkept hreplay
      cases records_of_replayMission hreplay with
      | transition => simpa using hkept
      | retained _ _ hnone => simp [hkept, hretained] at hnone
      | _ => exact hkept)
  exact ⟨last, by simpa using hlast, hkept.trans hretained⟩

end History

/-- A page mission passes only on its proof: where a retained page's mission passes, the whole
chain of the page's records lies before, and the mission has that one receipt. -/
theorem pass_follows_proof {id : MissionId} {retained : Retained}
    {before between after : List Entry} {retention pass : Entry}
    (h : accepts (before ++ retention :: (between ++ pass :: after)))
    (horder : ProofInOrder (before ++ retention :: (between ++ pass :: after)))
    (hretention : retention.Retains id retained)
    (hpass : pass.mission = id ∧ pass.event = .transition .verifyPass) :
    (∃ action verifier,
      InTurn (provenChain id retained action verifier) (before ++ retention :: between)) ∧
    (before ++ retention :: (between ++ pass :: after)).countP (Entry.isReceipt id) = 1 := by
  obtain ⟨rfl, hpass⟩ := hpass
  have hsplit : before ++ retention :: (between ++ pass :: after) =
      (before ++ retention :: between) ++ pass :: after := by simp
  rw [hsplit] at h horder ⊢
  obtain ⟨r, r', hr, hstep, hr'⟩ := accepts_append_cons h
  obtain ⟨m, hafter, hretained⟩ := retained_since hretention (accepts_iff.mpr ⟨r, hr⟩)
  obtain ⟨r₀, hr₀, hm⟩ := missionAfter_eq_some.mp hafter
  obtain rfl : r = r₀ := Except.ok.inj (hr.symm.trans hr₀)
  obtain ⟨m', hreplay, hm'⟩ := replayMission_of_replay hr hm hstep
  obtain ⟨target, -, -, -, -, hguard, rfl⟩ :=
    replayTransition_eq_ok.mp (replayTransition_of_replayMission hreplay hpass)
  have hverified : m.proof.verified = some true := by simpa [triggerGuard, hretained] using hguard
  have hhistory := proofHistory horder.of_append hr hm
  obtain ⟨hreceipt, hchain⟩ := hhistory.verified true hverified
  refine ⟨hchain retained hretained rfl, ?_⟩
  have hone : (before ++ retention :: between).countP (Entry.isReceipt pass.mission) = 1 := by
    rw [countP_isReceipt hr hm, if_pos hreceipt]
  -- No later entry adds a receipt, since a mission has one at most.
  obtain ⟨last, hlast, -⟩ :=
    kept_since (f := fun _ => ()) hafter h (fun _ _ => rfl) fun _ _ _ _ => rfl
  obtain ⟨_, hentries, hlast⟩ := missionAfter_eq_some.mp hlast
  have hcount := countP_isReceipt hentries hlast
  rw [List.countP_append] at hcount ⊢
  split at hcount <;> omega

/-- An action with ids as the broker writes them. -/
def pageAction : PendingAction where
  run := "run-00000000000000000000000000000001"
  commitment := "cmt-00000000000000000000000000000001"
  deadlineMonoMs := 9

/-- The digest of a report of six checks that passed. -/
def passedDigest : String := "715740861cb7845e91da2cbca04a73feaf4b594cdcf9019a6a3459945b2d740f"

/-- A page mission that passes: `role` is the lane whose answer is retained. -/
def passedJournal (role : LaneRole) : List Entry :=
  startedJournal ⟨⟨GENESIS⟩, ⟨GENESIS⟩, 1⟩ ++
    [.verified 4 1 (.transition .phaseDone),
      .verified 5 1 (.laneInvoked ⟨1, 5⟩ role GENESIS GENESIS 0 0),
      .verified 6 1 (.laneReturned ⟨1, 5⟩ GENESIS),
      .verified 7 1 (.deliverableRetained ⟨1, 5⟩ 0 ⟨GENESIS⟩ GENESIS 1),
      .verified 8 1 (.effectDispatched 0 .file GENESIS),
      .verified 9 1 (.effectSettled 0 .awaitingApproval),
      .verified 10 1 (.approvalPending 0 pageAction),
      .verified 11 1 (.transition (.awaitApproval 0 ⟨⟨GENESIS⟩, 0, 0⟩ [])),
      .verified 12 1 (.transition (.actionApproved 0 .building)),
      .verified 13 1 (.publicationReceipt 0 pageAction GENESIS 1 (some GENESIS) false),
      .verified 14 1 (.approvalClosed 0),
      .verified 15 1 (.transition .phaseDone),
      .verified 16 1 (.laneInvoked ⟨1, 16⟩ .verifier GENESIS GENESIS 0 0),
      .verified 17 1 (.laneReturned ⟨1, 16⟩ GENESIS),
      .verified 18 1 (.verificationRecorded ⟨1, 16⟩ 0 passedDigest
        [("v0", "pass"), ("v1", "pass"), ("v2", "pass"), ("v3", "pass"), ("v4", "pass"),
          ("v5", "pass")])]

/-- The entry with which the mission of `passedJournal` passes. -/
def passEntry : Entry := .verified 19 1 (.transition .verifyPass)

/-- The Builder's page passes on its proof. -/
theorem builder_page_passes : let page := passedJournal .builder
    accepts (page ++ [passEntry]) ∧ ProofInOrder (page ++ [passEntry]) ∧
      (∃ action verifier,
        InTurn (provenChain 1 ⟨⟨1, 5⟩, 0, ⟨GENESIS⟩, GENESIS, 1⟩ action verifier) page) ∧
      (page ++ [passEntry]).countP (Entry.isReceipt 1) = 1 := by
  intro page
  refine ⟨by decide, by decide, ?_⟩
  exact @pass_follows_proof 1 ⟨⟨1, 5⟩, 0, ⟨GENESIS⟩, GENESIS, 1⟩ (page.take 7) (page.drop 8) []
    (.verified 7 1 (.deliverableRetained ⟨1, 5⟩ 0 ⟨GENESIS⟩ GENESIS 1)) passEntry (by decide)
    (by decide) ⟨rfl, rfl⟩ ⟨rfl, rfl⟩

/-- Replay also passes a page that no Builder answered with: here it is the Skeptic's. -/
theorem skeptic_page_passes :
    ¬∀ (id : MissionId) (retained : Retained) (before between after : List Entry)
      (retention pass : Entry), accepts (before ++ retention :: (between ++ pass :: after)) →
      retention.Retains id retained →
      pass.mission = id ∧ pass.event = .transition .verifyPass →
      ∃ action verifier,
        InTurn (provenChain id retained action verifier) (before ++ retention :: between) := by
  intro h
  let page := passedJournal .skeptic
  obtain ⟨action, verifier, earlier, call, rest, heq, ⟨-, identity, input, cap, budget, hcall⟩,
    -⟩ :=
    h 1 ⟨⟨1, 5⟩, 0, ⟨GENESIS⟩, GENESIS, 1⟩ (page.take 7) (page.drop 8) []
      (.verified 7 1 (.deliverableRetained ⟨1, 5⟩ 0 ⟨GENESIS⟩ GENESIS 1)) passEntry (by decide)
      ⟨rfl, rfl⟩ ⟨rfl, rfl⟩
  have hmem : call ∈ page := by
    rw [show page = earlier ++ call :: rest from heq]
    simp
  -- No lane of the journal is the Builder.
  have hroles : ∀ e ∈ page, ∀ i a b c d, e.event ≠ .laneInvoked i .builder a b c d := by
    simp [page, passedJournal, startedJournal, Entry.verified]
  exact hroles call hmem _ _ _ _ _ hcall

end NexusOs.Mother
