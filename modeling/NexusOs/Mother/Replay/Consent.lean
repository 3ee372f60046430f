import NexusOs.Mother.Replay.Follow

/-!
# No work before consent

A mission works only after its Owner consented to the contract it has. The invariant says it of
every mission and the journal before it: a kept consent was recorded since the last revision, and
a mission that works or waits was started since that consent.
-/

namespace NexusOs.Mother

open History Fallible

/-- The records of a mission's work: a lane called, a model call charged, an effect sent. -/
def Event.isWork : Event → Bool
  | .laneInvoked _ _ _ _ _ _ | .modelCallCharged _ _ | .effectDispatched _ _ _ => true
  | _ => false

theorem Event.isOwn_of_isWork {event : Event} (h : event.isWork) : event.isOwn := by
  cases event <;> first | rfl | cases h

/-- An entry that revises the contract of the mission `id`. -/
def Entry.Revises (id : MissionId) (entry : Entry) : Prop :=
  entry.mission = id ∧ ∃ contract, entry.event = .transition (.revise contract)

/-- An entry that records the consent of the mission `id` to the contract with this hash. -/
def Entry.Consents (id : MissionId) (hash : ContractHash) (entry : Entry) : Prop :=
  entry.mission = id ∧ ∃ atWallMs, entry.event = .transition (.consent hash atWallMs)

/-- An entry that starts the mission `id`. -/
def Entry.Starts (id : MissionId) (entry : Entry) : Prop :=
  entry.mission = id ∧ entry.event = .transition .start

/-- The mission's consent to `hash` was recorded and its contract not revised since. -/
def ConsentedTo (id : MissionId) (hash : ContractHash) : List Entry → Prop :=
  Since (fun entry => ¬entry.Revises id) fun _ entry => entry.Consents id hash

/-- The mission was started after its consent to `hash`, and its contract not revised since. -/
def StartedUnder (id : MissionId) (hash : ContractHash) : List Entry → Prop :=
  Since (fun entry => ¬entry.Revises id) fun before entry =>
    entry.Starts id ∧ ConsentedTo id hash before

/-- What the journal says of a mission's consent. -/
structure ConsentHistory (id : MissionId) (before : List Entry) (m : Mission) : Prop where
  consent : ∀ hash, m.consent = some hash →
    hash = m.contractRef.contractHash ∧ ConsentedTo id hash before
  started : m.state.underWay → StartedUnder id m.contractRef.contractHash before

namespace ConsentHistory

variable {id : MissionId} {before : List Entry} {entry : Entry} {m m' : Mission}

/-- An entry that revises nothing keeps the history of a mission it does not move. -/
theorem frame (h : ConsentHistory id before m) (hentry : ¬entry.Revises id)
    (hsame : m.SameCourse m') : ConsentHistory id (before ++ [entry]) m' := by
  constructor
  · intro hash hconsent
    rw [hsame.consent] at hconsent
    rw [hsame.contractRef]
    obtain ⟨hhash, hsince⟩ := h.consent hash hconsent
    exact ⟨hhash, hsince.snoc hentry⟩
  · intro hstate
    rw [hsame.state] at hstate
    rw [hsame.contractRef]
    exact (h.started hstate).snoc hentry

/-- A transition keeps the history. -/
theorem moved {trigger : Trigger} {target : MissionState} (h : ConsentHistory id before m)
    (hid : entry.mission = id) (hevent : entry.event = .transition trigger)
    (htable : transition m.state trigger = some target) (hguard : triggerGuard m trigger = .ok ()) :
    ConsentHistory id (before ++ [entry]) (m.moved trigger target entry.seq) := by
  have hkept (hrevise : ∀ contract, trigger ≠ .revise contract) : ¬entry.Revises id := by
    rintro ⟨-, contract, h⟩
    rw [hevent] at h
    exact hrevise contract (Event.transition.inj h)
  constructor
  · intro hash hconsent
    cases trigger with
    | revise contract => simp at hconsent
    | consent given atWallMs =>
      obtain rfl : given = hash := by simpa using hconsent
      exact ⟨by simpa [triggerGuard] using hguard, .now ⟨hid, atWallMs, hevent⟩⟩
    | _ =>
      obtain ⟨hhash, hsince⟩ := h.consent hash (by simpa using hconsent)
      exact ⟨by simpa using hhash, hsince.snoc (hkept (by simp))⟩
  · intro hstate
    by_cases hstart : trigger = .start
    · subst hstart
      have hconsented : m.consented := by simpa [triggerGuard] using hguard
      obtain ⟨-, hsince⟩ := h.consent _ (beq_iff_eq.mp hconsented)
      simp only [Mission.moved, Mission.apply_contractRef]
      exact .now ⟨⟨hid, hevent⟩, hsince⟩
    have hstarted := h.started ((underWay_of_transition htable hstate).resolve_left hstart).1
    cases trigger with
    | revise contract =>
      -- A revision leads back to the draft.
      have htarget : target = .draft := by
        revert htable
        cases m.state <;> simp [transition, eq_comm]
      simp [htarget, MissionState.underWay, MissionState.isWorking] at hstate
    | _ =>
      simp only [Mission.moved, Mission.apply_contractRef]
      exact hstarted.snoc (hkept (by simp))

/-- Every record of the mission keeps its history. -/
theorem step (h : ConsentHistory id before m) (hid : entry.mission = id)
    (hrecord : Records m entry m') : ConsentHistory id (before ++ [entry]) m' := by
  cases hrecord with
  | transition trigger target hevent htable _ _ _ hguard => exact h.moved hid hevent htable hguard
  | _ => exact h.frame (by simp [Entry.Revises, *]) ⟨rfl, rfl, rfl, rfl⟩

end ConsentHistory

/-- Every mission of an accepted journal has its consent history. -/
theorem consentHistory {entries : List Entry} {r : Replayed} {id : MissionId} {m : Mission}
    (h : replayAll entries = .ok r) (hm : r.missions[id]? = some m) :
    ConsentHistory id entries m := by
  refine mission_induction ?_ ?_ ?_ ?_ h hm
  · intro before entry contract _ _ _
    exact ⟨by simp, by simp [MissionState.underWay, MissionState.isWorking]⟩
  · rintro before entry m mustHold hm - (hevent | hevent) <;>
      exact hm.frame (by simp [Entry.Revises, hevent]) ⟨rfl, rfl, rfl, rfl⟩
  · intro before entry after r m m' _ _ _ hm hid hreplay
    exact hm.step hid (records_of_replayMission hreplay)
  · intro before entry m hm hother
    exact hm.frame (fun h => hother h.1) ⟨rfl, rfl, rfl, rfl⟩

/-- Work is recorded of a drafted mission in a working phase only. -/
theorem isWorking_of_isWork {r r' : Replayed} {entry : Entry} (h : replay r entry = .ok r')
    (hwork : entry.event.isWork) :
    ∃ m, r.missions[entry.mission]? = some m ∧ m.state.isWorking := by
  obtain ⟨m, m', hm, hreplay, -⟩ := replay_own h (Event.isOwn_of_isWork hwork)
  refine ⟨m, hm, ?_⟩
  cases records_of_replayMission hreplay with
  | charged _ _ _ _ _ _ hmission => exact hmission.2.1
  | invoked _ _ _ _ _ _ _ _ _ hmission | dispatched _ _ _ _ hmission => exact hmission.1
  | _ => simp_all [Event.isWork]

/-- No work before consent to the current contract: where a lane is called, a model call charged
or an effect sent, the mission is in a working phase, its consent to the contract it then has was
recorded before, it was started after that consent, and its contract was not revised since. -/
theorem work_follows_consent {before after : List Entry} {entry : Entry}
    (h : accepts (before ++ entry :: after)) (hwork : entry.event.isWork) :
    ∃ m, missionAfter before entry.mission = some m ∧
      (m.state = .investigating ∨ m.state = .building ∨ m.state = .verifying ∨
        m.state = .explaining) ∧
      ∃ earlier consent between start rest,
        before = earlier ++ consent :: (between ++ start :: rest) ∧
        consent.Consents entry.mission m.contractRef.contractHash ∧
        start.Starts entry.mission ∧
        ∀ e ∈ between ++ start :: rest, ¬e.Revises entry.mission := by
  obtain ⟨r, r', hr, hstep, -⟩ := accepts_append_cons h
  obtain ⟨m, hm, hworking⟩ := isWorking_of_isWork hstep hwork
  refine ⟨m, missionAfter_eq_some.mpr ⟨r, hr, hm⟩, ?_, ?_⟩
  · revert hworking
    cases m.state <;> simp [MissionState.isWorking]
  have hstarted := (consentHistory hr hm).started (by simp [MissionState.underWay, hworking])
  obtain ⟨middle, start, rest, rfl, ⟨hstart, hconsented⟩, hrest⟩ := hstarted
  obtain ⟨earlier, consent, between, rfl, hconsent, hbetween⟩ := hconsented
  refine ⟨earlier, consent, between, start, rest, by simp, hconsent, hstart, ?_⟩
  simp only [List.mem_append, List.mem_cons]
  rintro e (he | rfl | he)
  · exact hbetween e he
  · rintro ⟨-, contract, hrevise⟩
    rw [hstart.2] at hrevise
    simp at hrevise
  · exact hrest e he

/-- The first lane call of a started mission follows its consent. -/
theorem first_lane_follows_consent : let journal := startedJournal ⟨⟨GENESIS⟩, ⟨GENESIS⟩, 1⟩
    ∃ m, missionAfter journal 1 = some m ∧
      (m.state = .investigating ∨ m.state = .building ∨ m.state = .verifying ∨
        m.state = .explaining) ∧
      ∃ earlier consent between start rest,
        journal = earlier ++ consent :: (between ++ start :: rest) ∧
        consent.Consents 1 m.contractRef.contractHash ∧ start.Starts 1 ∧
        ∀ e ∈ between ++ start :: rest, ¬e.Revises 1 :=
  @work_follows_consent _ [] (.verified 4 1 (.laneInvoked ⟨1, 4⟩ .sentinel GENESIS GENESIS 0 0))
    (by decide) rfl

end NexusOs.Mother
