import NexusOs.Mother.Replay.Ended

/-!
# The order in which lanes and effects are recorded

The live coordinator runs a phase lane by lane: it calls the next lane only after the one before
answered, leaves the phase only after the last, and goes on after an effect that waits for the
Owner only once it is approved. `LiveOrder` says it of a journal. Replay does not check all of
it: `Mission.inOrder` are the checks it does not make, and the journals whose entries meet them are
in live order.
-/

namespace NexusOs.Mother

open History List Option

/-! ## Live order -/

variable {r : Replayed} {trigger : Trigger} {target : MissionState} {previous : Option LaneRole}

/-- The triggers the live coordinator takes only with every lane call answered. -/
def Event.afterLanes : Event → Bool
  | .transition .phaseDone | .transition .verifyPass | .transition (.awaitApproval _ _ _) => true
  | _ => false

/-- The records with which a mission goes on. -/
def Event.goesOn : Event → Bool
  | .effectDispatched _ _ _ | .laneInvoked _ _ _ _ _ _ => true
  | .transition .phaseDone | .transition .verifyPass => true
  | _ => false

/-- An entry that calls a lane of the mission `id`. -/
def Entry.Calls (id : MissionId) (invocation : InvocationId) (role : LaneRole)
    (entry : Entry) : Prop :=
  entry.mission = id ∧ ∃ identity input cap budget,
    entry.event = .laneInvoked invocation role identity input cap budget

/-- An entry that records a lane's answer. -/
def Entry.Returns (id : MissionId) (invocation : InvocationId) (entry : Entry) : Prop :=
  entry.mission = id ∧ ∃ outputHash, entry.event = .laneReturned invocation outputHash

/-- An entry after which a lane call is no longer open: its answer, or that it was overtaken. -/
def Entry.Answers (id : MissionId) (invocation : InvocationId) (entry : Entry) : Prop :=
  entry.Returns id invocation ∨ entry.mission = id ∧ entry.event = .laneOvertaken invocation

/-- A lane call of the mission is unanswered. -/
def Unanswered (id : MissionId) (invocation : InvocationId) : List Entry → Prop :=
  Since (fun entry => ¬entry.Answers id invocation) fun _ entry =>
    ∃ role, entry.Calls id invocation role

/-- The lanes called since the mission entered its phase or was restarted, after one more
entry. -/
def laneRunStep (id : MissionId) (run : List LaneRole) (entry : Entry) : List LaneRole :=
  match entry.event with
  | .sessionOpened => []
  | .transition .start | .transition .phaseDone | .transition .verifyPass =>
    if entry.mission = id then [] else run
  | .laneInvoked _ role _ _ _ _ => if entry.mission = id then run ++ [role] else run
  | _ => run

/-- The lanes called since the mission entered its phase or was restarted, in order. -/
def laneRun (id : MissionId) (entries : List Entry) : List LaneRole :=
  entries.foldl (laneRunStep id) []

/-- An entry that records of an effect of the mission `id` that it waits for the Owner. -/
def Entry.SettlesAwaiting (id : MissionId) (effect : Nat) (entry : Entry) : Prop :=
  entry.mission = id ∧ entry.event = .effectSettled effect .awaitingApproval

/-- An entry with which the mission `id` waits for the approval of an effect. -/
def Entry.WaitsOn (id : MissionId) (effect : Nat) (entry : Entry) : Prop :=
  entry.mission = id ∧ ∃ rest rolesLeft,
    entry.event = .transition (.awaitApproval effect rest rolesLeft)

/-- An entry that records the approval of an effect the mission `id` waits on. -/
def Entry.Approves (id : MissionId) (effect : Nat) (entry : Entry) : Prop :=
  entry.mission = id ∧ ∃ phase, entry.event = .transition (.actionApproved effect phase)

/-- An effect was waited on and then approved. -/
def WaitedAndApproved (id : MissionId) (effect : Nat) (entries : List Entry) : Prop :=
  ∃ before wait between approval after,
    entries = before ++ wait :: (between ++ approval :: after) ∧
    wait.WaitsOn id effect ∧ approval.Approves id effect

/-- An entry with which the mission `id` completes a phase. -/
def Entry.CompletesPhase (id : MissionId) (entry : Entry) : Prop :=
  entry.mission = id ∧ entry.event = .transition .phaseDone

/-- The order the live coordinator writes. -/
structure LiveOrder (entries : List Entry) : Prop where
  /-- A phase is left, and an approval waited for, with no lane call unanswered. -/
  answered : ∀ before entry after, entries = before ++ entry :: after → entry.event.afterLanes →
    ∀ invocation, ¬Unanswered entry.mission invocation before
  /-- A lane is one of the mission's phase, called in the phase's order. -/
  roles : ∀ before entry after, entries = before ++ entry :: after →
    ∀ invocation role, entry.Calls entry.mission invocation role →
    ∃ m, missionAfter before entry.mission = some m ∧ role ∈ phaseRoles m.state ∧
      (laneRun entry.mission (before ++ [entry])).Sublist (phaseRoles m.state)
  /-- After an effect that waits, the mission goes on once it was approved. -/
  approved : ∀ before entry after, entries = before ++ entry :: after → entry.event.goesOn →
    ∀ earlier settled since effect, before = earlier ++ settled :: since →
      settled.SettlesAwaiting entry.mission effect → WaitedAndApproved entry.mission effect since
  /-- A mission passes after its Verifier answered in this Verifying phase. -/
  verified : ∀ before entry after, entries = before ++ entry :: after →
    entry.event = .transition .verifyPass →
    ∃ earlier call between answer rest invocation,
      before = earlier ++ call :: (between ++ answer :: rest) ∧
      call.Calls entry.mission invocation .verifier ∧
      (missionAfter earlier entry.mission).map (·.state) = some .verifying ∧
      answer.Returns entry.mission invocation ∧
      ∀ e ∈ between ++ answer :: rest, ¬e.CompletesPhase entry.mission

/-- The checks of live order that replay does not make, on the mission before a record. `previous`
is the lane last called since the phase was entered. -/
def Mission.inOrder (m : Mission) (previous : Option LaneRole) : Event → Bool
  | .transition .phaseDone => m.pendingLane.isNone && m.awaitingSettled.isNone
  | .transition .verifyPass =>
    m.pendingLane.isNone && m.awaitingSettled.isNone && m.proof.invoked == some .verifier &&
      m.proof.returned.isSome
  | .transition (.awaitApproval _ _ _) => m.pendingLane.isNone
  | .laneInvoked _ role _ _ _ _ =>
    m.awaitingSettled.isNone && (phaseRoles m.state).contains role &&
      previous.all fun earlier => [earlier, role].isSublist (phaseRoles m.state)
  | .effectDispatched _ _ _ => m.awaitingSettled.isNone
  | _ => true

/-- Every entry of a drafted mission meets the checks of live order. -/
abbrev InOrder : List Entry → Prop :=
  EachEntry fun before m entry => m.inOrder (laneRun entry.mission before).getLast? entry.event

/-! ## Lane calls and their answers -/

variable {entries before since : List Entry} {id : MissionId} {entry : Entry} {m m' : Mission}
  {effect : Nat} {invocation : InvocationId}

/-- The open lane call is the one the journal has no answer to. -/
def OpenCall (id : MissionId) (before : List Entry) (m : Mission) : Prop :=
  ∀ invocation, Unanswered id invocation before →
    m.pendingLane = some invocation ∨ m.state.isTerminal

/-- Behind an entry that calls no lane, the calls without an answer are earlier ones. -/
theorem OpenCall.earlier (h : OpenCall id before m)
    (hcall : ∀ invocation role, ¬entry.Calls id invocation role)
    (hunanswered : Unanswered id invocation (before ++ [entry])) :
    ¬entry.Answers id invocation ∧ (m.pendingLane = some invocation ∨ m.state.isTerminal) := by
  obtain ⟨role, hcalls⟩ | ⟨hanswers, hunanswered⟩ := since_snoc.mp hunanswered
  · exact absurd hcalls (hcall invocation role)
  · exact ⟨hanswers, h invocation hunanswered⟩

/-- An entry that calls no lane and answers none. -/
theorem OpenCall.frame (h : OpenCall id before m)
    (hcall : ∀ invocation role, ¬entry.Calls id invocation role)
    (hpending : m'.pendingLane = m.pendingLane) (hstate : m'.state = m.state) :
    OpenCall id (before ++ [entry]) m' := by
  intro invocation hunanswered
  rw [hpending, hstate]
  exact (h.earlier hcall hunanswered).2

theorem OpenCall.step (h : OpenCall id before m) (hid : entry.mission = id)
    (hrecord : Records m entry m') : OpenCall id (before ++ [entry]) m' := by
  have hcall (hkind : ∀ a b c d e f, entry.event ≠ .laneInvoked a b c d e f) :
      ∀ invocation role, ¬entry.Calls id invocation role := by
    rintro invocation role ⟨-, _, _, _, _, hevent⟩
    exact hkind _ _ _ _ _ _ hevent
  cases hrecord with
  | transition trigger target hevent htable =>
    intro invocation hunanswered
    obtain ⟨-, hpending | hended⟩ := h.earlier (hcall (by simp [hevent])) hunanswered
    · by_cases hsettled : trigger.isSettled
      · exact .inr (isTerminal_of_isSettled htable hsettled)
      · exact .inl (by simpa [hsettled] using hpending)
    · simp [transition_of_isTerminal hended] at htable
  | invoked invocation role _ _ _ _ _ hevent _ hmission =>
    intro invocation' hunanswered
    obtain ⟨role', -, _, _, _, _, hcalls⟩ | ⟨-, hunanswered⟩ := since_snoc.mp hunanswered
    · simp only [hevent, Event.laneInvoked.injEq] at hcalls
      exact .inl (congrArg some hcalls.1)
    · obtain hpending | hended := h invocation' hunanswered
      · simp [hmission.2.2.1] at hpending
      · simp [MissionState.not_isTerminal_of_isWorking hmission.1] at hended
  | returned invocation outputHash hevent hpending =>
    intro invocation' hunanswered
    obtain ⟨hanswers, hpending' | hended⟩ := h.earlier (hcall (by simp [hevent])) hunanswered
    · obtain rfl := some.inj (hpending.symm.trans hpending')
      exact absurd (.inl ⟨hid, outputHash, hevent⟩) hanswers
    · exact .inr hended
  | overtaken invocation hevent hpending =>
    intro invocation' hunanswered
    obtain ⟨hanswers, hpending' | hended⟩ := h.earlier (hcall (by simp [hevent])) hunanswered
    · obtain rfl := some.inj (hpending.symm.trans hpending')
      exact absurd (.inr ⟨hid, hevent⟩) hanswers
    · exact .inr hended
  | _ => exact h.frame (hcall (by simp [*])) rfl rfl

/-- The open lane call of every mission of an accepted journal. -/
theorem openCall (h : replayAll entries = .ok r) (hm : r.missions[id]? = some m) :
    OpenCall id entries m := by
  refine mission_induction ?_ ?_ ?_ ?_ h hm
  · rintro before entry contract hnew - hevent invocation hunanswered
    obtain ⟨_, -, _, _, _, _, hcalls⟩ | ⟨-, _, call, _, heq, ⟨_, hcall, -⟩, -⟩ :=
      since_snoc.mp hunanswered
    · simp [hevent] at hcalls
    · exact absurd hcall (hnew call (by simp [heq]))
  · rintro before entry m mustHold hm - (hevent | hevent) <;>
      exact hm.frame (by simp [Entry.Calls, hevent]) rfl rfl
  · intro before entry after r m m' _ _ _ hm hid hreplay
    exact hm.step hid (records_of_replayMission hreplay)
  · intro before entry m hm hother
    exact hm.frame (fun _ _ hcalls => hother hcalls.1) rfl rfl

@[simp] theorem laneRun_snoc :
    laneRun id (before ++ [entry]) = laneRunStep id (laneRun id before) entry := by
  simp [laneRun]

/-- A role that comes after the last one of a run extends it. -/
theorem sublist_snoc {run roles : List LaneRole} {role : LaneRole} (hroles : roles.Nodup)
    (hrun : run.Sublist roles) (hrole : role ∈ roles)
    (hlast : ∀ last, run.getLast? = some last → [last, role].Sublist roles) :
    (run ++ [role]).Sublist roles := by
  rcases eq_nil_or_concat' run with rfl | ⟨run, last, rfl⟩
  · simpa using hrole
  have hpair := hlast last (by simp)
  clear hlast hrole
  induction roles generalizing run with
  | nil => simp at hrun
  | cons first roles ih =>
    obtain ⟨hfirst, hroles⟩ := nodup_cons.mp hroles
    -- Where `last` lies further on, so does the pair.
    have hfurther (h : last ∈ roles) : [last, role].Sublist roles := by
      cases hpair with
      | cons _ h => exact h
      | cons_cons _ _ => exact absurd h hfirst
    cases run with
    | nil => exact hpair
    | cons head run =>
      cases hrun with
      | cons _ hrun => exact .cons _ (ih hroles _ hrun (hfurther (hrun.subset (by simp))))
      | cons_cons _ hrun =>
        exact .cons_cons _ (ih hroles run hrun (hfurther (hrun.subset (by simp))))

/-- The lanes called since a mission entered its phase are lanes of the phase, in its order. -/
structure LaneOrder (id : MissionId) (before : List Entry) (m : Mission) : Prop where
  running : m.state.isWorking → (laneRun id before).Sublist (phaseRoles m.state)
  paused : m.state = .awaitingApproval → ∀ w, m.waiting = some w →
    (laneRun id before).Sublist (phaseRoles w.phase)

theorem nodup_phaseRoles (s : MissionState) : (phaseRoles s).Nodup := by cases s <;> decide

/-- An entry that calls no lane and enters no phase. -/
theorem LaneOrder.frame (h : LaneOrder id before m)
    (hrun : (laneRunStep id (laneRun id before) entry).Sublist (laneRun id before))
    (hstate : m'.state = m.state) (hwaiting : m'.waiting = m.waiting) :
    LaneOrder id (before ++ [entry]) m' := by
  constructor
  · rw [laneRun_snoc, hstate]
    exact fun hworking => hrun.trans (h.running hworking)
  · rw [laneRun_snoc, hstate, hwaiting]
    exact fun hpaused w hw => hrun.trans (h.paused hpaused w hw)

/-- A transition starts a phase, pauses or continues it, or leaves the working phases. -/
theorem LaneOrder.moved (h : LaneOrder id before m) (hid : entry.mission = id)
    (hevent : entry.event = .transition trigger) (htable : transition m.state trigger = some target)
    (hguard : triggerGuard m trigger = .ok ()) :
    LaneOrder id (before ++ [entry]) (m.moved trigger target entry.seq) := by
  by_cases hunder : target.underWay
  swap
  · constructor <;> intro hstate <;> simp_all [MissionState.underWay]
  have hrun : laneRun id (before ++ [entry]) = laneRunStep id (laneRun id before) entry :=
    laneRun_snoc
  simp only [laneRunStep, hevent, hid] at hrun
  obtain rfl | ⟨-, rfl | rfl | ⟨effect, rest, rolesLeft, rfl⟩ | ⟨effect, phase, rfl⟩⟩ :=
    underWay_of_transition htable hunder
  iterate 3 exact ⟨fun _ => by simp [hrun], fun _ _ _ => by simp [hrun]⟩
  · obtain ⟨hwait, htarget⟩ := ite_none_right_eq_some.mp htable
    obtain rfl := some.inj htarget
    refine ⟨fun hworking => (Bool.false_ne_true hworking).elim, fun _ w hw => ?_⟩
    obtain rfl : _ = w := some.inj (by simpa using hw)
    rw [hrun]
    exact h.running (MissionState.isWorking_of_mayWait hwait)
  · obtain ⟨⟨hstate, hwait⟩, htarget⟩ := ite_none_right_eq_some.mp htable
    obtain rfl := some.inj htarget
    obtain ⟨w, hw, -, rfl⟩ := triggerGuard_actionApproved.mp hguard
    refine ⟨fun _ => ?_, fun _ w' hw' => by simp at hw'⟩
    rw [hrun]
    exact h.paused hstate w hw

/-- Every record of the mission that meets the checks of live order keeps the lanes in order. -/
theorem LaneOrder.step (h : LaneOrder id before m) (hid : entry.mission = id)
    (hrecord : Records m entry m') (horder : m.inOrder (laneRun id before).getLast? entry.event) :
    LaneOrder id (before ++ [entry]) m' := by
  cases hrecord with
  | transition trigger target hevent htable _ _ _ hguard => exact h.moved hid hevent htable hguard
  | invoked invocation role _ _ _ _ _ hevent _ hmission =>
    simp only [hevent, Mission.inOrder, Bool.and_eq_true, contains_iff_mem,
      Option.all_eq_true, isSublist_iff_sublist] at horder
    constructor
    · intro hworking
      rw [laneRun_snoc]
      simp only [laneRunStep, hevent, hid]
      exact sublist_snoc (nodup_phaseRoles _) (h.running hworking) horder.1.2 horder.2
    · intro hstate
      have hworking := hmission.1
      rw [show m.state = .awaitingApproval from hstate] at hworking
      cases hworking
  | _ => exact h.frame (by simp [laneRunStep, *]) rfl rfl

/-! ## Effects that wait -/

/-- Effects are unsettled, and wait to be waited on, in a working phase or after the end. -/
structure EffectPhase (m : Mission) : Prop where
  unsettled : m.unsettled.isSome →
    (m.state.isWorking ∨ m.state.isTerminal) ∧ m.awaitingSettled = none
  awaiting : m.awaitingSettled.isSome → m.state.isWorking ∨ m.state.isTerminal

theorem EffectPhase.step (h : EffectPhase m) (hrecord : Records m entry m') : EffectPhase m' := by
  cases hrecord with
  | transition trigger target hevent htable _ _ hunsettled =>
    refine ⟨fun hsome => ⟨.inr ?_, rfl⟩, by simp⟩
    simp only [Mission.moved, Mission.apply_pendingLane] at hsome
    split at hsome
    · cases hsome
    · exact isTerminal_of_whileUnsettled htable (hunsettled hsome)
  | invoked => exact ⟨fun hsome => ⟨(h.unsettled hsome).1, rfl⟩, by simp⟩
  | dispatched _ _ _ _ hmission => exact ⟨fun _ => ⟨.inl hmission.1, rfl⟩, by simp⟩
  | awaiting _ _ hunsettled => exact ⟨by simp, fun _ => (h.unsettled (by simp [hunsettled])).1⟩
  | settled _ _ _ _ hunsettled => exact ⟨by simp, h.awaiting⟩
  | _ => exact ⟨h.unsettled, h.awaiting⟩

theorem effectPhase (h : replayAll entries = .ok r) (hm : r.missions[id]? = some m) :
    EffectPhase m := by
  refine mission_invariant ?_ ?_ EffectPhase.step h hm
  · intro contract
    exact ⟨by simp, by simp⟩
  · intro m mustHold hm _
    exact ⟨hm.unsettled, hm.awaiting⟩

/-- Where an effect stands that was to wait for the Owner, by the entries since. -/
def Awaits (id : MissionId) (effect : Nat) (since : List Entry) (m : Mission) : Prop :=
  WaitedAndApproved id effect since ∨ m.awaitingSettled = some effect ∨
    (m.state = .awaitingApproval ∧ (∃ w, m.waiting = some w ∧ w.effect = effect) ∧
      ∃ wait ∈ since, wait.WaitsOn id effect) ∨
    m.state.isTerminal

theorem WaitedAndApproved.snoc (h : WaitedAndApproved id effect since) :
    WaitedAndApproved id effect (since ++ [entry]) := by
  obtain ⟨before, wait, between, approval, after, rfl, hwait, happroval⟩ := h
  exact ⟨before, wait, between, approval, after ++ [entry], by simp, hwait, happroval⟩

/-- An entry that leaves the effect's mission alone. -/
theorem Awaits.frame (h : Awaits id effect since m)
    (hawaiting : m.awaitingSettled = some effect → m'.awaitingSettled = some effect)
    (hstate : m'.state = m.state) (hwaiting : m'.waiting = m.waiting) :
    Awaits id effect (since ++ [entry]) m' := by
  rw [Awaits, hstate, hwaiting]
  obtain happroved | hawaits | ⟨hstate, hw, wait, hmem, hwait⟩ | hended := h
  · exact .inl happroved.snoc
  · exact .inr (.inl (hawaiting hawaits))
  · exact .inr (.inr (.inl ⟨hstate, hw, wait, by simp [hmem], hwait⟩))
  · exact .inr (.inr (.inr hended))

/-- A record of the mission that meets the checks of live order. -/
theorem Awaits.step (h : Awaits id effect since m) (hphase : EffectPhase m)
    (hid : entry.mission = id) (hrecord : Records m entry m')
    (horder : m.inOrder previous entry.event) : Awaits id effect (since ++ [entry]) m' := by
  obtain happroved | hrest := h
  · exact .inl happroved.snoc
  cases hrecord with
  | transition trigger target hevent htable _ _ _ hguard =>
    obtain hawaits | ⟨hstate, ⟨w, hw, heffect⟩, wait, hmem, hwait⟩ | hended := hrest
    · obtain hworking | hended := hphase.awaiting (by simp [hawaits])
      swap
      · simp [transition_of_isTerminal hended] at htable
      obtain rfl | rfl | ⟨waited, rest, rolesLeft, rfl⟩ | hended :=
        transition_of_isWorking hworking htable
      · simp [hevent, Mission.inOrder, hawaits] at horder
      · simp [hevent, Mission.inOrder, hawaits] at horder
      · obtain ⟨hsettled, -⟩ := triggerGuard_awaitApproval.mp hguard
        obtain rfl := some.inj (hawaits.symm.trans hsettled)
        obtain ⟨-, htarget⟩ := ite_none_right_eq_some.mp htable
        exact .inr (.inr (.inl ⟨(some.inj htarget).symm,
          ⟨_, m.apply_waiting _ target 0, rfl⟩, entry, by simp, hid, rest, rolesLeft, hevent⟩))
      · exact .inr (.inr (.inr hended))
    · rw [hstate] at htable
      obtain ⟨approved, phase, rfl⟩ | hended := transition_awaitingApproval htable
      · obtain ⟨w', hw', rfl, -⟩ := triggerGuard_actionApproved.mp hguard
        obtain rfl := some.inj (hw.symm.trans hw')
        obtain ⟨earlier, later, rfl⟩ := append_of_mem hmem
        exact .inl ⟨earlier, wait, later, entry, [], by simp, heffect ▸ hwait, hid, phase,
          heffect ▸ hevent⟩
      · exact .inr (.inr (.inr hended))
    · simp [transition_of_isTerminal hended] at htable
  | invoked _ _ _ _ _ _ _ hevent _ hmission =>
    simp only [hevent, Mission.inOrder, Bool.and_eq_true, isNone_iff_eq_none] at horder
    exact .frame (.inr hrest) (by simp [horder.1.1]) rfl rfl
  | dispatched _ _ _ hevent =>
    simp only [hevent, Mission.inOrder, isNone_iff_eq_none] at horder
    exact .frame (.inr hrest) (by simp [horder]) rfl rfl
  | awaiting settled hevent hunsettled =>
    have hnone := (hphase.unsettled (by simp [hunsettled])).2
    exact .frame (.inr hrest) (by simp [hnone]) rfl rfl
  | _ => exact .frame (.inr hrest) (fun hawaits => hawaits) rfl rfl

/-- Every effect that was to wait for the Owner stands where live order has it. -/
def ApprovalOrder (id : MissionId) (before : List Entry) (m : Mission) : Prop :=
  ∀ earlier settled since effect, before = earlier ++ settled :: since →
    settled.SettlesAwaiting id effect → Awaits id effect since m

/-- What one more entry has to show: for an effect it settles itself, and for those before. -/
theorem approvalOrder_snoc
    (hnow : ∀ effect, entry.SettlesAwaiting id effect → Awaits id effect [] m')
    (hearlier : ∀ earlier settled since effect, before = earlier ++ settled :: since →
      settled.SettlesAwaiting id effect → Awaits id effect (since ++ [entry]) m') :
    ApprovalOrder id (before ++ [entry]) m' := by
  intro earlier settled since effect heq hsettled
  obtain ⟨rfl, rfl, rfl⟩ | ⟨since, rfl, rfl⟩ := snoc_eq_append_cons heq
  · exact hnow effect hsettled
  · exact hearlier earlier settled since effect rfl hsettled

theorem ApprovalOrder.step (h : ApprovalOrder id before m) (hphase : EffectPhase m)
    (hid : entry.mission = id) (hrecord : Records m entry m')
    (horder : m.inOrder previous entry.event) : ApprovalOrder id (before ++ [entry]) m' := by
  refine approvalOrder_snoc ?_ fun earlier settled since effect heq hsettled =>
    (h earlier settled since effect heq hsettled).step hphase hid hrecord horder
  rintro effect ⟨-, hevent⟩
  cases hrecord with
  | awaiting settled hsettles =>
    rw [hsettles] at hevent
    obtain ⟨rfl, -⟩ := Event.effectSettled.inj hevent
    exact .inr (.inl rfl)
  | settled _ outcome hsettles houtcome =>
    rw [hsettles] at hevent
    exact absurd (Event.effectSettled.inj hevent).2 houtcome
  | _ => simp_all

/-! ## The Verifier's answer -/

/-- The Verifier was called in the Verifying phase, which was not left since. -/
def CalledVerifier (id : MissionId) (invocation : InvocationId) : List Entry → Prop :=
  Since (fun entry => ¬entry.CompletesPhase id) fun earlier entry =>
    entry.Calls id invocation .verifier ∧ (missionAfter earlier id).map (·.state) = some .verifying

/-- The Verifier so called answered. -/
def VerifierReturned (id : MissionId) (invocation : InvocationId) : List Entry → Prop :=
  Since (fun entry => ¬entry.CompletesPhase id) fun earlier entry =>
    entry.Returns id invocation ∧ CalledVerifier id invocation earlier

/-- The mission is past the phases before the Verifier's. -/
def Mission.Late (m : Mission) : Prop :=
  m.state = .verifying ∨ m.state = .explaining ∨ m.state.isTerminal ∨
    m.state = .awaitingApproval ∧ ∀ w, m.waiting = some w → w.phase = .verifying

/-- What the journal says of a Verifier that was called last. -/
structure VerifierHistory (id : MissionId) (before : List Entry) (m : Mission) : Prop where
  late : m.proof.invoked = some .verifier → m.Late
  called : m.proof.invoked = some .verifier → m.state.isTerminal = false →
    ∀ invocation, m.pendingLane = some invocation → CalledVerifier id invocation before
  returned : m.proof.invoked = some .verifier → m.state.isTerminal = false →
    ∀ invocation, m.proof.returned = some invocation → VerifierReturned id invocation before

/-- An entry that completes no phase and leaves the lanes alone. -/
theorem VerifierHistory.frame (h : VerifierHistory id before m) (hentry : ¬entry.CompletesPhase id)
    (hproof : m'.proof.invoked = m.proof.invoked ∧ m'.proof.returned = m.proof.returned)
    (hpending : m'.pendingLane = m.pendingLane) (hstate : m'.state = m.state)
    (hwaiting : m'.waiting = m.waiting) : VerifierHistory id (before ++ [entry]) m' := by
  constructor
  · rw [hproof.1, Mission.Late, hstate, hwaiting]
    exact h.late
  · rw [hproof.1, hstate, hpending]
    exact fun hinvoked hlive invocation hcall => (h.called hinvoked hlive _ hcall).snoc hentry
  · rw [hproof.1, hproof.2, hstate]
    exact fun hinvoked hlive invocation hcall => (h.returned hinvoked hlive _ hcall).snoc hentry

/-- A late mission that does not end stays late, and completes no phase. -/
theorem Mission.Late.moved {seq : Nat} (h : m.Late)
    (htable : transition m.state trigger = some target) (hguard : triggerGuard m trigger = .ok ()) :
    (m.moved trigger target seq).Late ∧
      (target.isTerminal = false → trigger ≠ .phaseDone ∧ trigger.isSettled = false) := by
  by_cases hended : target.isTerminal
  · exact ⟨.inr (.inr (.inl hended)), fun hlive => by simp [hended] at hlive⟩
  have hsettled : trigger.isSettled = false := by
    by_contra hsettled
    exact hended (isTerminal_of_isSettled htable (by simpa using hsettled))
  obtain hstate | hstate | hterminal | ⟨hstate, hwaiting⟩ := h
  · rw [hstate] at htable
    obtain rfl | rfl | ⟨effect, rest, rolesLeft, rfl⟩ | h := transition_of_isWorking rfl htable
    · cases htable
    · cases htable
      exact ⟨.inr (.inl rfl), fun _ => ⟨by simp, hsettled⟩⟩
    · cases htable
      refine ⟨.inr (.inr (.inr ⟨rfl, fun w hw => ?_⟩)), fun _ => ⟨by simp, hsettled⟩⟩
      obtain rfl : _ = w := some.inj (by simpa using hw)
      exact hstate
    · exact absurd h hended
  · rw [hstate] at htable
    obtain rfl | rfl | ⟨effect, rest, rolesLeft, rfl⟩ | h := transition_of_isWorking rfl htable
    · cases htable
      exact absurd rfl hended
    · cases htable
    · cases htable
    · exact absurd h hended
  · simp [transition_of_isTerminal hterminal] at htable
  rw [hstate] at htable
  obtain ⟨effect, phase, rfl⟩ | h := transition_awaitingApproval htable
  · obtain ⟨w, hw, -, rfl⟩ := triggerGuard_actionApproved.mp hguard
    obtain ⟨-, htarget⟩ := ite_none_right_eq_some.mp htable
    refine ⟨.inl ?_, fun _ => ⟨by simp, hsettled⟩⟩
    simp only [← some.inj htarget]
    exact hwaiting w hw
  · exact absurd h hended

/-- Every record of the mission that meets the checks of live order keeps the Verifier's
history. -/
theorem VerifierHistory.step (h : VerifierHistory id before m)
    (hm : missionAfter before id = some m) (hid : entry.mission = id) (hrecord : Records m entry m')
    (horder : m.inOrder previous entry.event) : VerifierHistory id (before ++ [entry]) m' := by
  cases hrecord with
  | transition trigger target hevent htable _ _ _ hguard =>
    have hentry (htrigger : trigger ≠ .phaseDone) : ¬entry.CompletesPhase id := by
      rintro ⟨-, hdone⟩
      rw [hevent] at hdone
      exact htrigger (Event.transition.inj hdone)
    have hlate (hinvoked : m.proof.invoked = some .verifier) :
        (m.moved trigger target entry.seq).Late ∧ _ := (h.late hinvoked).moved htable hguard
    have hlive (hended : target.isTerminal = false) : m.state.isTerminal = false := by
      by_contra hterminal
      simp [transition_of_isTerminal (by simpa using hterminal)] at htable
    constructor
    · intro hinvoked
      exact (hlate (by simpa using hinvoked)).1
    · intro hinvoked hended invocation hpending
      simp only [Mission.moved, Mission.apply_kept] at hinvoked
      obtain ⟨htrigger, hsettled⟩ := (hlate hinvoked).2 hended
      exact (h.called hinvoked (hlive hended) invocation
        (by simpa [hsettled] using hpending)).snoc (hentry htrigger)
    · intro hinvoked hended invocation hreturned
      simp only [Mission.moved, Mission.apply_kept] at hinvoked hreturned
      obtain ⟨htrigger, hsettled⟩ := (hlate hinvoked).2 hended
      exact (h.returned hinvoked (hlive hended) invocation hreturned).snoc (hentry htrigger)
  | invoked invocation role identity input cap budget _ hevent =>
    have hverifying (hrole : role = .verifier) : m.state = .verifying := by
      simp only [hevent, Mission.inOrder, Bool.and_eq_true] at horder
      have hmem := horder.1.2
      revert hmem
      cases m.state <;> simp [phaseRoles, hrole]
    constructor
    · intro hinvoked
      exact .inl (hverifying (some.inj hinvoked))
    · intro hinvoked _ invocation' hpending
      obtain rfl : role = .verifier := some.inj hinvoked
      obtain rfl : invocation = invocation' := some.inj hpending
      exact .now ⟨⟨hid, _, _, _, _, hevent⟩, by simp [hm, hverifying rfl]⟩
    · intro _ _ _ hreturned
      cases hreturned
  | returned invocation outputHash hevent hpending =>
    refine ⟨h.late, by simp, ?_⟩
    intro hinvoked hlive invocation' hreturned
    obtain rfl : invocation = invocation' := some.inj hreturned
    exact .now ⟨⟨hid, outputHash, hevent⟩, h.called hinvoked hlive invocation hpending⟩
  | overtaken invocation hevent =>
    refine ⟨h.late, by simp, ?_⟩
    intro hinvoked hlive invocation' hreturned
    exact (h.returned hinvoked hlive invocation' hreturned).snoc
      (by simp [Entry.CompletesPhase, hevent])
  | _ => exact h.frame (by simp [Entry.CompletesPhase, *]) ⟨rfl, rfl⟩ rfl rfl rfl

/-! ## The journals in live order -/

/-- What live order says of a mission and the journal before it. -/
structure OrderHistory (id : MissionId) (before : List Entry) (m : Mission) : Prop where
  lanes : LaneOrder id before m
  approvals : ApprovalOrder id before m
  verifier : VerifierHistory id before m

/-- An entry that is none of the mission's, or a session's. -/
theorem OrderHistory.frame {laneCalls : Option LaneCalls} {callAccounting : Option CallAccounting}
    {mustHold : Bool} (h : OrderHistory id before m)
    (hrun : (laneRunStep id (laneRun id before) entry).Sublist (laneRun id before))
    (hsettled : ∀ effect, ¬entry.SettlesAwaiting id effect) (hdone : ¬entry.CompletesPhase id) :
    OrderHistory id (before ++ [entry]) { m with laneCalls, callAccounting, mustHold } :=
  ⟨h.lanes.frame hrun rfl rfl,
    approvalOrder_snoc (fun effect hnow => absurd hnow (hsettled effect)) fun _ _ _ _ heq hat =>
      (h.approvals _ _ _ _ heq hat).frame (fun hawaits => hawaits) rfl rfl,
    h.verifier.frame hdone ⟨rfl, rfl⟩ rfl rfl rfl⟩

/-- Every mission of an accepted journal whose entries meet the checks. -/
theorem orderHistory (horder : InOrder entries) (h : replayAll entries = .ok r)
    (hm : r.missions[id]? = some m) : OrderHistory id entries m := by
  refine mission_induction ?_ ?_ ?_ ?_ h hm
  · intro before entry contract hnew hid hevent
    refine ⟨⟨nofun, nofun⟩, ?_, ⟨nofun, nofun, nofun⟩⟩
    refine approvalOrder_snoc (by simp [Entry.SettlesAwaiting, hevent]) ?_
    rintro earlier settled since effect rfl hsettled
    exact absurd hsettled.1 (hnew settled (by simp))
  · rintro before entry m mustHold hm - (hevent | hevent) <;>
      exact hm.frame (by simp [laneRunStep, hevent]) (by simp [Entry.SettlesAwaiting, hevent])
        (by simp [Entry.CompletesPhase, hevent])
  · rintro before entry after r m m' hentries hr hbefore hm rfl hreplay
    have hafter := missionAfter_eq_some.mpr ⟨r, hr, hbefore⟩
    have hrecord := records_of_replayMission hreplay
    subst hentries
    have hcheck := horder.mission hr hbefore
    exact ⟨hm.lanes.step rfl hrecord hcheck,
      hm.approvals.step (effectPhase hr hbefore) rfl hrecord hcheck,
      hm.verifier.step hafter rfl hrecord hcheck⟩
  · intro before entry m hm hother
    refine hm.frame ?_ (fun _ hsettled => hother hsettled.1) fun hdone => hother hdone.1
    unfold laneRunStep
    split <;> simp [hother]

/-- An entry of a drafted mission, with the mission before it and the check it meets. -/
theorem orderHistory_before {after : List Entry} (horder : InOrder (before ++ entry :: after))
    (h : accepts (before ++ entry :: after)) (hown : entry.event.isOwn) :
    ∃ r m m', replayAll before = .ok r ∧ r.missions[entry.mission]? = some m ∧
      Records m entry m' ∧ m.inOrder (laneRun entry.mission before).getLast? entry.event ∧
      OrderHistory entry.mission before m := by
  obtain ⟨r, r', hr, hstep, -⟩ := accepts_append_cons h
  obtain ⟨m, m', hm, hreplay, -⟩ := replay_own hstep hown
  exact ⟨r, m, m', hr, hm, records_of_replayMission hreplay, horder.mission hr hm,
    orderHistory horder.of_append hr hm⟩

/-- A mission goes on in a working phase only. -/
theorem isWorking_of_goesOn (hrecord : Records m entry m') (hgoes : entry.event.goesOn) :
    m.state.isWorking := by
  cases hrecord with
  | transition trigger target hevent htable =>
    rw [hevent] at hgoes
    cases trigger with
    | phaseDone | verifyPass =>
      revert htable
      cases m.state <;> simp [transition, MissionState.isWorking]
    | _ => cases hgoes
  | invoked _ _ _ _ _ _ _ _ _ hmission | dispatched _ _ _ _ hmission => exact hmission.1
  | _ => simp_all [Event.goesOn]

/-- An accepted journal whose entries meet the checks that replay does not make is in live
order. -/
theorem liveOrder_of_inOrder {entries : List Entry} (h : accepts entries)
    (horder : InOrder entries) : LiveOrder entries where
  answered before entry after hentries hafter invocation hunanswered := by
    subst hentries
    obtain ⟨r, m, m', hr, hm, hrecord, hcheck, -⟩ := orderHistory_before horder h (by
      revert hafter
      cases entry.event <;> simp [Event.afterLanes, Event.isOwn])
    cases hrecord with
    | transition trigger target hevent htable =>
      have hnone : m.pendingLane = none := by
        cases trigger <;> simp_all [Event.afterLanes, Mission.inOrder]
      obtain hpending | hended := openCall hr hm invocation hunanswered
      · simp [hnone] at hpending
      · simp [transition_of_isTerminal hended] at htable
    | _ => simp_all [Event.afterLanes]
  roles before entry after hentries invocation role hcall := by
    subst hentries
    obtain ⟨-, identity, input, cap, budget, hevent⟩ := hcall
    obtain ⟨r, m, m', hr, hm, hrecord, hcheck, hhistory⟩ :=
      orderHistory_before horder h (by simp [hevent, Event.isOwn])
    have hworking := isWorking_of_goesOn hrecord (by simp [hevent, Event.goesOn])
    have hstate := (hrecord.sameCourse (by simp [hevent])).state
    have hrun := (hhistory.lanes.step rfl hrecord hcheck).running (hstate ▸ hworking)
    refine ⟨m, missionAfter_eq_some.mpr ⟨r, hr, hm⟩, ?_, hstate ▸ hrun⟩
    simp only [hevent, Mission.inOrder, Bool.and_eq_true, contains_iff_mem] at hcheck
    exact hcheck.1.2
  approved before entry after hentries hgoes earlier settled since effect hbefore hsettled := by
    subst hentries
    obtain ⟨r, m, m', hr, hm, hrecord, hcheck, hhistory⟩ := orderHistory_before horder h (by
      revert hgoes
      cases entry.event <;> simp [Event.goesOn, Event.isOwn])
    have hworking := isWorking_of_goesOn hrecord hgoes
    obtain happroved | hawaits | ⟨hstate, -⟩ | hended :=
      hhistory.approvals earlier settled since effect hbefore hsettled
    · exact happroved
    · have hnone : m.awaitingSettled = none := by
        revert hgoes hcheck
        cases entry.event with
        | transition trigger => cases trigger <;> simp_all [Event.goesOn, Mission.inOrder]
        | _ => simp_all [Event.goesOn, Mission.inOrder]
      simp [hnone] at hawaits
    · simp [hstate, MissionState.isWorking] at hworking
    · simp [MissionState.not_isTerminal_of_isWorking hworking] at hended
  verified before entry after hentries hpass := by
    subst hentries
    obtain ⟨r, m, m', hr, hm, hrecord, hcheck, hhistory⟩ :=
      orderHistory_before horder h (by simp [hpass, Event.isOwn])
    have hworking := isWorking_of_goesOn hrecord (by simp [hpass, Event.goesOn])
    simp only [hpass, Mission.inOrder, Bool.and_eq_true, beq_iff_eq] at hcheck
    obtain ⟨invocation, hreturned⟩ := isSome_iff_exists.mp hcheck.2
    obtain ⟨middle, answer, rest, rfl, ⟨hanswer, hcalled⟩, hrest⟩ :=
      hhistory.verifier.returned hcheck.1.2 (MissionState.not_isTerminal_of_isWorking hworking)
        invocation hreturned
    obtain ⟨earlier, call, between, rfl, ⟨hcall, hstate⟩, hbetween⟩ := hcalled
    refine ⟨earlier, call, between, answer, rest, invocation, by simp, hcall, hstate, hanswer, ?_⟩
    simp only [mem_append, mem_cons]
    rintro e (he | rfl | he)
    · exact hbetween e he
    · obtain ⟨-, outputHash, hevent⟩ := hanswer
      simp [Entry.CompletesPhase, hevent]
    · exact hrest e he

/-- A started mission whose Sentinel is called. -/
def calledJournal (contract : ContractRef) : List Entry :=
  startedJournal contract ++ [.verified 4 1 (.laneInvoked ⟨1, 4⟩ .sentinel GENESIS GENESIS 0 0)]

/-- A phase left after its lane answered is in live order. -/
theorem liveOrder_answered : let journal := calledJournal ⟨⟨GENESIS⟩, ⟨GENESIS⟩, 1⟩ ++
      [.verified 5 1 (.laneReturned ⟨1, 4⟩ GENESIS), .verified 6 1 (.transition .phaseDone)]
    accepts journal ∧ InOrder journal ∧ LiveOrder journal :=
  ⟨by decide, by decide, liveOrder_of_inOrder (by decide) (by decide)⟩

/-- Replay accepts other orders, also of missions not in File mode: a phase left with a lane call
unanswered. -/
theorem phaseDone_while_unanswered :
    ¬∀ entries, accepts entries → (∀ e ∈ entries, e.event ≠ .fileModeSelected) →
      LiveOrder entries := by
  intro h
  let called := calledJournal ⟨⟨GENESIS⟩, ⟨GENESIS⟩, 1⟩
  have hlive := h (called ++ [.verified 5 1 (.transition .phaseDone)]) (by decide) (by decide)
  refine hlive.answered called _ [] rfl rfl ⟨1, 4⟩ (.now ⟨.sentinel, rfl, ?_⟩)
  exact ⟨GENESIS, GENESIS, 0, 0, rfl⟩

end NexusOs.Mother
