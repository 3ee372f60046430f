import NexusOs.Mother.Replay.Follow

/-!
# An ended mission stays ended

After its end a mission takes only the records that answer what was still under way: a lane's
answer, an effect's outcome, a closed action, a refusal. Most records are refused by the state
alone. A receipt is not: it is also taken as settlement evidence, by fields that survive the end,
so that the end leaves no such evidence open is an invariant (`Ending`).
-/

namespace NexusOs.Mother

open Transition Option MissionState

/-- The records a mission that has ended may still have. -/
def Event.afterEnd : Event → Bool
  | .laneReturned _ _ | .laneOvertaken _ | .effectSettled _ _ | .approvalClosed _ => true
  | .consentRefused _ | .effectRefused _ _ => true
  | _ => false

/-- What the end of a mission leaves: no hold, and no File whose settlement could still take
evidence. Only a mission that waits, or that ended while it waited, has a wait. -/
structure Ending (m : Mission) : Prop where
  waiting : m.waiting.isSome → m.state = .awaitingApproval ∨ m.state.isTerminal
  held : m.state.isTerminal → m.held = none ∧ m.mustHold = false
  evidence : m.state.isTerminal → m.unresolvedFile = none ∨ m.waiting = none ∧ m.settlement = none

variable {trigger : Trigger}

/-- How a mission ends: by its File's settlement, by a trigger that no unsettled File lets pass,
by an answer to its wait, or from a phase in which it does not wait. -/
theorem resolves_of_transition_isTerminal {s s' : MissionState}
    (h : transition s trigger = some s') (hterminal : s'.isTerminal) :
    trigger.isSettled ∨ trigger.endsUnsettledFile ∨ Mission.resolves trigger ∨
      s = .awaitingConsent ∨ s = .explaining := by
  cases trigger <;> cases s <;> simp_all [transition, Trigger.isSettled,
    Trigger.endsUnsettledFile, Mission.resolves, isTerminal, mayWait] <;>
    simp [← h] at hterminal

namespace Ending

variable {m m' : Mission} {entry : Entry} {target : MissionState}

/-- No receipt is settlement evidence after the end. -/
theorem not_settling (h : Ending m) (hterminal : m.state.isTerminal) (effect : Nat)
    (overtaken : Bool) : PageProof.settling m effect overtaken = false := by
  obtain hfile | ⟨hwaiting, hsettlement⟩ := h.evidence hterminal
  · simp [PageProof.settling, hfile]
  · simp [PageProof.settling, hwaiting, hsettlement]

/-- A record of an ended mission is one of those that may follow the end. -/
theorem afterEnd (h : Ending m) (hterminal : m.state.isTerminal) (hrecord : Records m entry m') :
    entry.event.afterEnd := by
  have hworking : m.state.isWorking = false := by
    revert hterminal
    cases m.state <;> simp [isTerminal, isWorking]
  have hwait : m.state.mayWait = false := by
    revert hterminal
    cases m.state <;> simp [isTerminal, mayWait]
  cases hrecord with
  | fileMode _ _ hstate => simp [hstate, isTerminal] at hterminal
  | transition trigger target _ htable => simp [transition_of_isTerminal hterminal] at htable
  | charged _ _ _ _ _ _ hmission => simp [hmission.2.1] at hworking
  | invoked _ _ _ _ _ _ _ _ _ hmission | dispatched _ _ _ _ hmission =>
    simp [hmission.1] at hworking
  | pending _ _ _ hmission => simp [hmission.1] at hwait
  | settlementStarted _ _ _ hmission | held _ _ hmission => simp [hmission.1] at hterminal
  | resumed _ hheld => simp [(h.held hterminal).1] at hheld
  | retained _ _ _ hmission => simp [hmission.1, isTerminal] at hterminal
  | receipt _ _ _ _ _ _ hclean => simp [hwait, h.not_settling hterminal] at hclean
  | verification _ _ _ _ _ _ _ _ hmission => simp [hmission.1, isTerminal] at hterminal
  | _ => simp [Event.afterEnd, *]

/-- The transition that ends a mission leaves no evidence open. -/
theorem evidence_moved {seq : Nat} (h : Ending m)
    (htable : transition m.state trigger = some target)
    (hfile : m.unresolvedFile.isSome → trigger.endsUnsettledFile = false)
    (hsettlement : m.settlement.isSome → trigger.isSettled) (hterminal : target.isTerminal) :
    (m.moved trigger target seq).unresolvedFile = none ∨
      (m.moved trigger target seq).waiting = none ∧
        (m.moved trigger target seq).settlement = none := by
  by_cases hsettled : trigger.isSettled
  · exact .inl (by simp [hsettled])
  have hnone : m.settlement = none := by
    by_contra hsome
    exact hsettled (hsettlement (isSome_iff_ne_none.mpr hsome))
  by_cases hends : trigger.endsUnsettledFile
  · have hnofile : m.unresolvedFile = none := by
      by_contra hsome
      simp [hfile (isSome_iff_ne_none.mpr hsome)] at hends
    exact .inl (by simp [hnofile])
  -- What is left are a denial, a lapse, a denied consent and the end of the last phase.
  refine .inr ⟨?_, by simpa using hnone⟩
  have hwaiting : m.state ≠ .awaitingApproval → m.state.isTerminal = false → m.waiting = none := by
    intro hstate hlive
    by_contra hsome
    obtain hwaits | hended := h.waiting (isSome_iff_ne_none.mpr hsome)
    · exact hstate hwaits
    · simp [hlive] at hended
  obtain hsettles | hfileless | hresolves | hsource :=
    resolves_of_transition_isTerminal htable hterminal
  · exact absurd hsettles hsettled
  · exact absurd hfileless hends
  · revert hresolves
    cases trigger <;> simp [Mission.resolves]
  have hkept := hwaiting (by rintro h; simp [h] at hsource)
    (by obtain h | h := hsource <;> rw [h] <;> rfl)
  simp only [Mission.moved, Mission.apply_waiting]
  split
  · obtain h | h := hsource <;> simp [h, Mother.transition, mayWait] at htable
  all_goals first | rfl | exact hkept

/-- A session record keeps what the end of a mission leaves. -/
theorem session {mustHold : Bool} (h : Ending m) (hobliged : m.Obliged mustHold) :
    Ending { m with laneCalls := none, callAccounting := none, mustHold } := by
  obtain rfl | ⟨-, hopen⟩ := hobliged
  · exact ⟨h.waiting, h.held, h.evidence⟩
  · exact ⟨h.waiting, fun hended => absurd hended hopen, h.evidence⟩

/-- A transition out of a wait ends the wait or the mission. -/
theorem waiting_apply {monoNow : Nat} (h : Ending m)
    (htable : transition m.state trigger = some target)
    (hwaits : (m.apply trigger target monoNow).waiting.isSome) :
    target = .awaitingApproval ∨ target.isTerminal := by
  rw [Mission.apply_waiting] at hwaits
  cases trigger with
  | awaitApproval effect rest rolesLeft =>
    exact .inl (some.inj (ite_none_right_eq_some.mp htable).2).symm
  | actionApproved | approvalLapsed | actionDenied | settled => cases hwaits
  | _ =>
    right
    obtain hstate | hended := h.waiting hwaits
    · rw [hstate] at htable
      cases htable <;> rfl
    · simp [transition_of_isTerminal hended] at htable

/-- Every accepted record keeps what the end of a mission leaves. -/
theorem step (h : Ending m) (hrecord : Records m entry m') : Ending m' := by
  cases hrecord with
  | transition trigger target _ htable hfile hsettlement =>
    refine ⟨h.waiting_apply htable, ?_, h.evidence_moved htable hfile hsettlement⟩
    intro hended
    simp only [Mission.moved, Mission.apply_state] at hended
    simp [hended]
  | dispatched _ _ _ hevent hmission =>
    -- A File sent out is unresolved, but the mission works.
    have hlive := not_isTerminal_of_isWorking hmission.1
    exact ⟨h.waiting, h.held, fun hended => by simp [hlive] at hended⟩
  | settled effect =>
    refine ⟨h.waiting, h.held, fun hended => ?_⟩
    obtain hfile | hnone := h.evidence hended
    · simp [hfile]
    · exact .inr hnone
  | settlementStarted _ _ _ hmission =>
    exact ⟨h.waiting, h.held, fun hended => by simp [hmission.1] at hended⟩
  | held _ _ hmission => exact ⟨h.waiting, fun hended => by simp [hmission.1] at hended, h.evidence⟩
  | resumed => exact ⟨h.waiting, fun hended => ⟨rfl, (h.held hended).2⟩, h.evidence⟩
  | _ => exact ⟨h.waiting, h.held, h.evidence⟩

end Ending

/-- Every mission of an accepted journal, once ended, left no evidence open. -/
theorem ending {entries : List Entry} {r : Replayed} {id : MissionId} {m : Mission}
    (h : replayAll entries = .ok r) (hm : r.missions[id]? = some m) : Ending m := by
  refine mission_invariant (fun contract => ?_) Ending.session .step h hm
  exact ⟨by simp, by simp, by simp⟩

/-- No record moves a mission that has ended. -/
theorem Records.state_of_isTerminal {m m' : Mission} {entry : Entry} (h : Records m entry m')
    (hended : m.state.isTerminal) : m'.state = m.state := by
  refine (h.sameCourse fun trigger hevent => ?_).state
  cases h with
  | transition _ _ _ htable => simp [transition_of_isTerminal hended] at htable
  | _ => simp_all

/-- An ended mission stays ended, over every later session: it takes only the records that answer
what was under way, and none of them moves it. -/
theorem ended_stays_ended {id : MissionId} {m : Mission} {before later : List Entry}
    (haccepts : accepts (before ++ later)) (hm : missionAfter before id = some m)
    (hended : m.state.isTerminal) :
    (∀ entry ∈ later, entry.mission = id → entry.event.afterEnd) ∧
      ∃ m', missionAfter (before ++ later) id = some m' ∧ m'.state = m.state := by
  have hkept : ∀ since, accepts (before ++ since) →
      ∃ m', missionAfter (before ++ since) id = some m' ∧ m'.state = m.state :=
    fun since hsince => kept_since hm hsince (fun _ _ => rfl) fun _ _ hstate hreplay =>
      ((records_of_replayMission hreplay).state_of_isTerminal (hstate ▸ hended)).trans hstate
  refine ⟨?_, hkept later haccepts⟩
  rintro entry hmem rfl
  obtain ⟨since, rest, rfl⟩ := List.append_of_mem hmem
  rw [← List.append_assoc] at haccepts
  obtain ⟨r, r', hr, hstep, -⟩ := accepts_append_cons haccepts
  obtain ⟨n, hn, hstate⟩ := hkept since (accepts_iff.mpr ⟨r, hr⟩)
  obtain ⟨r₀, hr₀, hn⟩ := missionAfter_eq_some.mp hn
  obtain rfl : r = r₀ := Except.ok.inj (hr.symm.trans hr₀)
  obtain ⟨n', hreplay, -⟩ := replayMission_of_replay hr hn hstep
  exact (ending hr hn).afterEnd (hstate ▸ hended) (records_of_replayMission hreplay)

/-- A stopped mission, in a second session. -/
theorem stopped_stays_ended : let journal := startedJournal ⟨⟨GENESIS⟩, ⟨GENESIS⟩, 1⟩ ++
      [.verified 4 1 (.transition (.stop .owner))]
    ∃ m', missionAfter (journal ++ [.verified 5 SESSION .sessionOpened]) 1 = some m' ∧
      m'.state = .stopped :=
  (ended_stays_ended (by decide) (some_get (by decide)).symm (by decide)).2

end NexusOs.Mother
